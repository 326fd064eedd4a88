import DbusBroker.Dbus.MessageWire
import DbusBroker.Dbus.UniqueName

/-!
# Messages with a stitched sender

What `message_stitch_sender` makes of an accepted message is a message again: the pieces that are
sent, one behind the other, have the sizes that the new header declares, and the parser accepts
them with the same metadata but for the sender. The header fields are the old ones without the
sender, byte by byte and in their order, and the new sender behind them.
-/

namespace DbusBroker

namespace Wire

open AlignedReader

/-- The message that a receiver makes of some bytes, if it takes as much as the header declares. -/
def messageOnWire (bigEndian : Bool) (wire : Bytes) (fds : Option (List ℕ)) : Message :=
  { messageOf bigEndian wire (messageHeaderSize + headerNFields bigEndian wire) (headerNBody bigEndian wire) with
    fds := fds }

/-- Some bytes are a message: they begin with the byte order, are as long as the header declares, and the parser
accepts them. -/
structure WellFormed (bigEndian : Bool) (wire : Bytes) (fds : Option (List ℕ)) (parsed : Message) : Prop where
  endian : wire.head? = some (byte (if bigEndian then 'B' else 'l'))
  size : wire.length = alignTo8 (messageHeaderSize + headerNFields bigEndian wire) + headerNBody bigEndian wire
  accepted : messageParseMetadata (messageOnWire bigEndian wire fds) = .ok parsed

/-- The patch is a sender field with its gap. -/
theorem senderPatch_eq (bigEndian : Bool) (sender : Bytes) :
    senderPatch bigEndian sender = padded 0 8 (senderStruct bigEndian sender) := by
  have hgap : gap 8 (senderStruct bigEndian sender).length =
      alignTo8 (senderFieldSize sender.length) - senderFieldSize sender.length := by
    rw [length_senderStruct]
    rfl
  rw [padded, hgap]
  rfl

/-- The fixed header with another size of the fields. -/
def withNFields (bigEndian : Bool) (fixed : Bytes) (n : ℕ) : Bytes := fixed.take 12 ++ uint32ToBytes bigEndian n

section fixed

variable {fixed : Bytes}

theorem length_withNFields (bigEndian : Bool) (n : ℕ) (h : fixed.length = messageHeaderSize) :
    (withNFields bigEndian fixed n).length = messageHeaderSize := by
  have hsize : fixed.length = 16 := h
  rw [withNFields, List.length_append, length_uint32ToBytes, List.length_take_of_le (by omega)]
  rfl

/-- Only the size of the fields is another one. -/
theorem fixedHeader_withNFields (bigEndian : Bool) {n : ℕ} (h : fixed.length = messageHeaderSize) (hn : n < 2 ^ 32) :
    fixedHeader bigEndian (withNFields bigEndian fixed n) = { fixedHeader bigEndian fixed with nFields := n } ∧
      headerNFields bigEndian (withNFields bigEndian fixed n) = n ∧
        headerNBody bigEndian (withNFields bigEndian fixed n) = headerNBody bigEndian fixed ∧
          (withNFields bigEndian fixed n).head? = fixed.head? := by
  match fixed, h with
  | [b₀, b₁, b₂, b₃, b₄, b₅, b₆, b₇, b₈, b₉, b₁₀, b₁₁, b₁₂, b₁₃, b₁₄, b₁₅], _ =>
    have hnFields : headerNFields bigEndian
        (withNFields bigEndian [b₀, b₁, b₂, b₃, b₄, b₅, b₆, b₇, b₈, b₉, b₁₀, b₁₁, b₁₂, b₁₃, b₁₄, b₁₅] n) = n := by
      have htake : (uint32ToBytes bigEndian n).take 4 = uint32ToBytes bigEndian n :=
        List.take_of_length_le (Nat.le_of_eq (length_uint32ToBytes _ _))
      change uint32OfBytes bigEndian ((uint32ToBytes bigEndian n).take 4) = n
      rw [htake]
      exact ((uint32OfBytes_eq_iff bigEndian _ n).mpr ⟨hn, rfl⟩).2
    refine ⟨?_, hnFields, rfl, rfl⟩
    change FixedHeader.mk b₁ b₂ b₃ (uint32OfBytes bigEndian [b₈, b₉, b₁₀, b₁₁]) (headerNFields bigEndian _) = _
    rw [hnFields]
    rfl

end fixed

/-- Whether the mandatory fields were seen does not depend on the sender. -/
theorem validHeader_withSender {fixed : FixedHeader} {f : Fields} {sender : Option Bytes} :
    ValidHeader fixed (f.withSender sender) ↔ ValidHeader fixed f := by
  have hmask (type : UInt8) : 2 ^ 7 &&& mandatoryFields type = 0 := by
    rw [mandatoryFields]
    split
    · rfl
    split
    · rfl
    split
    · rfl
    split <;> rfl
  have havailable : (f.withSender sender).available = f.available ||| 2 ^ 7 := rfl
  rw [ValidHeader, ValidHeader, havailable, Nat.and_or_distrib_right, hmask, Nat.or_zero]

/-- The header fields on the wire with a sender behind them. -/
def stitchedFields (bigEndian : Bool) (others : List Bytes) (sender : Bytes) : Bytes :=
  others.flatMap (padded 0 8) ++ senderStruct bigEndian sender

/-- The wire of a message with these fields, in front of its body. -/
def stitchedWire (bigEndian : Bool) (fixed : Bytes) (others : List Bytes) (sender body : Bytes) : Bytes :=
  withNFields bigEndian fixed (stitchedFields bigEndian others sender).length ++
    (others.flatMap (padded 0 8) ++ (padded 0 8 (senderStruct bigEndian sender) ++ body))

section stitched

variable {bigEndian : Bool} {fixed : Bytes} {others : List Bytes} {sender body : Bytes}

theorem stitchedFields_eq_layout :
    stitchedFields bigEndian others sender =
      layout 0 8 messageHeaderSize (others ++ [senderStruct bigEndian sender]) :=
  (layout_concat (by decide) (by decide) others _).symm

/-- The parts of the stitched message. -/
theorem stitchedWire_eq :
    stitchedWire bigEndian fixed others sender body =
      withNFields bigEndian fixed (stitchedFields bigEndian others sender).length ++
        (stitchedFields bigEndian others sender ++
          (List.replicate (gap 8 (messageHeaderSize + (stitchedFields bigEndian others sender).length)) 0 ++ body)) := by
  have hgap : stitchedFields bigEndian others sender ++
      List.replicate (gap 8 (messageHeaderSize + (stitchedFields bigEndian others sender).length)) 0 =
        others.flatMap (padded 0 8) ++ padded 0 8 (senderStruct bigEndian sender) := by
    have hlayout := layout_append_gap (0 : UInt8) (k := 8) (by decide) messageHeaderSize
      (others ++ [senderStruct bigEndian sender])
    have hstart : gap 8 messageHeaderSize = 0 := by decide
    rw [← stitchedFields_eq_layout, hstart, List.replicate_zero, List.nil_append] at hlayout
    rw [hlayout, List.flatMap_append, List.flatMap_singleton]
  rw [stitchedWire, ← List.append_assoc (stitchedFields bigEndian others sender), hgap, List.append_assoc]

/-- A sender can be put in behind the fields of an accepted message without one, and it becomes part of the metadata. -/
theorem wellFormed_stitchedWire {fds : Option (List ℕ)} {g : Fields} {args : List MessageArg}
    (hfixed : fixed.length = messageHeaderSize) (hendian : fixed.head? = some (byte (if bigEndian then 'B' else 'l')))
    (hnBody : headerNBody bigEndian fixed = body.length)
    (hothers : parseFields bigEndian (fdlistCount fds) messageHeaderSize ⟨.init, none⟩ others = some ⟨g, none⟩)
    (hnoSender : g.NoSender) (hvalid : ValidHeader (fixedHeader bigEndian fixed) g)
    (hargs : messageParseBody bigEndian (g.signature.getD []) body = .ok args)
    (hname : dbusValidateName sender = true) (hstring : cDvarIsString sender = true)
    (hsize : (stitchedFields bigEndian others sender).length < 2 ^ 32) :
    ∃ fx s, WellFormed bigEndian (stitchedWire bigEndian fixed others sender body) fds
        (parsedMessage (messageOnWire bigEndian (stitchedWire bigEndian fixed others sender body) fds) fx s args) ∧
      fx = { fixedHeader bigEndian fixed with nFields := (stitchedFields bigEndian others sender).length } ∧
      s.fields = g.withSender (some sender) := by
  obtain ⟨hheader, hnFields, hnBody', hhead⟩ := fixedHeader_withNFields bigEndian hfixed hsize
  obtain ⟨F, hF⟩ : ∃ F, stitchedFields bigEndian others sender = F := ⟨_, rfl⟩
  have hlength : (withNFields bigEndian fixed F.length).length = messageHeaderSize := length_withNFields _ _ hfixed
  have hlong : sender.length < 2 ^ 32 := lt_of_le_of_lt (length_le_of_dbusValidateName hname) (by decide)
  obtain ⟨s, hparse, hs⟩ := parseFields_concat_sender hothers hnoSender hlong hstring hname
  rw [stitchedWire_eq, hF]
  rw [hF] at hheader hnFields hnBody' hhead
  obtain ⟨wire, hwire⟩ : ∃ wire, withNFields bigEndian fixed F.length ++
      (F ++ (List.replicate (gap 8 (messageHeaderSize + F.length)) 0 ++ body)) = wire := ⟨_, rfl⟩
  have hn : headerNFields bigEndian wire = F.length := by
    rw [← hwire, (header_append hlength bigEndian _).1, hnFields]
  have hb : headerNBody bigEndian wire = body.length := by
    rw [← hwire, (header_append hlength bigEndian _).2, hnBody', hnBody]
  have hendian' : (withNFields bigEndian fixed F.length).head? = some (byte (if bigEndian then 'B' else 'l')) :=
    hhead.trans hendian
  have hframed : Framed (messageOnWire bigEndian wire fds) (withNFields bigEndian fixed F.length) F
      (List.replicate (gap 8 (messageHeaderSize + F.length)) 0) body := by
    refine ⟨?_, hlength, hendian', hnFields, hnBody'.trans hnBody, List.length_replicate⟩
    rw [messageOnWire, hn, hb, hwire]
    rfl
  have hlayout : F = layout 0 8 messageHeaderSize (others ++ [senderStruct bigEndian sender]) := by
    rw [← hF, stitchedFields_eq_layout]
  have hvalid' : ValidHeader (fixedHeader bigEndian (withNFields bigEndian fixed F.length)) s.fields := by
    rw [hheader, hs]
    exact validHeader_withSender.mpr hvalid
  have hargs' : messageParseBody bigEndian (s.fields.signature.getD []) body = .ok args := by
    rw [hs]
    exact hargs
  rw [hwire]
  refine ⟨_, s, ⟨?_, ?_, ?_⟩, hheader, hs⟩
  · have hne : withNFields bigEndian fixed F.length ≠ [] := fun hnil => by
      rw [hnil] at hlength
      cases hlength
    rw [← hwire, List.head?_append_of_ne_nil _ hne, hendian']
  · rw [hn, hb, ← hwire, ← hframed.length_header]
    simp only [List.length_append]
    omega
  · exact hframed.messageParseMetadata_eq_ok_iff.mpr ⟨_, s, args, hlayout, hparse, hvalid', rfl, hargs', rfl⟩

/-- The header fields of the stitched message. -/
theorem headerFields_stitchedWire (hfixed : fixed.length = messageHeaderSize)
    (hothers : ∀ b ∈ others, whole (fieldStruct bigEndian) b = some ())
    (hsender : whole (fieldStruct bigEndian) (senderStruct bigEndian sender) = some ())
    (hsize : (stitchedFields bigEndian others sender).length < 2 ^ 32) :
    headerFields bigEndian (stitchedWire bigEndian fixed others sender body) =
      some (others ++ [senderStruct bigEndian sender]) := by
  obtain ⟨-, hnFields, -, -⟩ := fixedHeader_withNFields bigEndian hfixed hsize
  have hlength := length_withNFields bigEndian (stitchedFields bigEndian others sender).length hfixed
  have hall : ∀ b ∈ others ++ [senderStruct bigEndian sender], whole (fieldStruct bigEndian) b = some () := by
    intro b hb
    rcases List.mem_append.mp hb with hb | hb
    · exact hothers b hb
    · rwa [List.mem_singleton.mp hb]
  have hcollect := collectFields_layout (o := messageHeaderSize) hall
  rw [headerFields, stitchedWire_eq, (header_append hlength bigEndian _).1, hnFields, List.drop_left' hlength,
    List.take_left' rfl, stitchedFields_eq_layout, hcollect]

end stitched

section stitch

variable {m₀ m : Message} {fixed fields blank body : Bytes}

/-- A message whose fields are an array is laid out with the gaps behind the fields. -/
theorem Framed.data_eq (h : Framed m₀ fixed fields blank body) {bs : List Bytes}
    (hlayout : fields = layout 0 8 messageHeaderSize bs)
    (hblank : blank = List.replicate (gap 8 (messageHeaderSize + fields.length)) 0) :
    m₀.data = fixed ++ (bs.flatMap (padded 0 8) ++ body) ∧
      alignTo8 m₀.nHeader = messageHeaderSize + (bs.flatMap (padded 0 8)).length := by
  have hgap : fields ++ blank = bs.flatMap (padded 0 8) := by
    have hpadded := layout_append_gap (0 : UInt8) (k := 8) (by decide) messageHeaderSize bs
    have hstart : gap 8 messageHeaderSize = 0 := by decide
    rw [← hlayout, ← hblank, hstart, List.replicate_zero, List.nil_append] at hpadded
    exact hpadded
  constructor
  · rw [h.message, ← hgap, List.append_assoc]
    rfl
  · have hheader := h.length_header
    rw [hgap, List.length_append, h.length_fixed] at hheader
    rw [h.message]
    exact hheader.symm

variable {x y z : Bytes} {sender : Bytes}

/-- What is sent when the new sender is put in: the pieces in front of and behind the old one, the patch and the body,
under a header with the new size. -/
theorem wire_messageAppendSender (hfixed : fixed.length = messageHeaderSize)
    (hdata : m.data = fixed ++ (x ++ (y ++ (z ++ body))))
    (hvec0 : m.vec0 = ⟨some (.data 0), messageHeaderSize + x.length⟩)
    (hvec1 : m.vec1 = ⟨some (.data (messageHeaderSize + x.length + y.length)), z.length⟩ ∨ m.vec1 = ⟨none, 0⟩ ∧ z = [])
    (hvec3 : m.vec3 = ⟨some (.data (messageHeaderSize + x.length + y.length + z.length)), body.length⟩) :
    (messageAppendSender m sender).wire =
      withNFields m.bigEndian fixed (x.length + z.length + senderFieldSize sender.length) ++
        (x ++ (z ++ (senderPatch m.bigEndian sender ++ body))) := by
  have hlen1 : m.vec1.len = z.length := by
    rcases hvec1 with h | ⟨h, rfl⟩ <;> rw [h]
    rfl
  have hn : m.vec0.len + m.vec1.len + senderFieldSize sender.length - messageHeaderSize =
      x.length + z.length + senderFieldSize sender.length := by
    rw [hvec0, hlen1]
    change messageHeaderSize + x.length + z.length + _ - messageHeaderSize = _
    omega
  have hsize : fixed.length = 16 := hfixed
  have hdata' : (messageAppendSender m sender).data =
      withNFields m.bigEndian fixed (x.length + z.length + senderFieldSize sender.length) ++ (x ++ (y ++ (z ++ body))) := by
    have htake : m.data.take 12 = fixed.take 12 := by
      rw [hdata, List.take_append_of_le_length (by omega)]
    have hdrop : m.data.drop messageHeaderSize = x ++ (y ++ (z ++ body)) := by
      rw [hdata, List.drop_left' hfixed]
    simp only [messageAppendSender, hn, htake, hdrop, withNFields]
  obtain ⟨header, hheader⟩ : ∃ header,
      withNFields m.bigEndian fixed (x.length + z.length + senderFieldSize sender.length) = header := ⟨_, rfl⟩
  have hlength : header.length = messageHeaderSize := hheader ▸ length_withNFields _ _ hfixed
  rw [hheader] at hdata' ⊢
  have h0 : (messageAppendSender m sender).ioBytes m.vec0 = header ++ x := by
    have hx : (header ++ x).length = messageHeaderSize + x.length := by rw [List.length_append, hlength]
    simp only [Message.ioBytes, hvec0, hdata', List.drop_zero]
    rw [← List.append_assoc, List.take_left' hx]
  have h1 : (messageAppendSender m sender).ioBytes m.vec1 = z := by
    rcases hvec1 with h | ⟨h, rfl⟩
    · have hxy : (header ++ x ++ y).length = messageHeaderSize + x.length + y.length := by
        rw [List.length_append, List.length_append, hlength]
      simp only [Message.ioBytes, h, hdata']
      rw [← List.append_assoc, ← List.append_assoc, List.drop_left' hxy, List.take_left' rfl]
    · simp only [Message.ioBytes, h]
  have h2 : (messageAppendSender m sender).ioBytes ⟨some (.patch 0), alignTo8 (senderFieldSize sender.length)⟩ =
      senderPatch m.bigEndian sender := by
    have hpatch : (senderPatch m.bigEndian sender).length = alignTo8 (senderFieldSize sender.length) := by
      rw [senderPatch_eq, length_padded (by decide), length_senderStruct]
      rfl
    simp only [Message.ioBytes, messageAppendSender, List.drop_zero]
    rw [List.take_left' hpatch]
  have h3 : (messageAppendSender m sender).ioBytes m.vec3 = body := by
    have hxyz : (header ++ x ++ y ++ z).length = messageHeaderSize + x.length + y.length + z.length := by
      rw [List.length_append, List.length_append, List.length_append, hlength]
    simp only [Message.ioBytes, hvec3, hdata']
    rw [← List.append_assoc, ← List.append_assoc, ← List.append_assoc, List.drop_left' hxyz, List.take_length]
  change (messageAppendSender m sender).ioBytes m.vec0 ++ (messageAppendSender m sender).ioBytes m.vec1 ++
    (messageAppendSender m sender).ioBytes ⟨some (.patch 0), alignTo8 (senderFieldSize sender.length)⟩ ++
      (messageAppendSender m sender).ioBytes m.vec3 = _
  rw [h0, h1, h2, h3]
  simp only [List.append_assoc]

/-- The length of the old sender is found where the parser noted it. -/
theorem strlen_sender {old : Bytes} (hfixed : fixed.length = messageHeaderSize)
    (hdata : m.data = fixed ++ (x ++ (padded 0 8 (senderStruct m.bigEndian old) ++ (z ++ body))))
    (hname : dbusValidateName old = true) : m.strlen (messageHeaderSize + x.length + 8) = old.length := by
  obtain ⟨head, hhead⟩ : ∃ head : Bytes,
      [dbusMessageFieldSender, 1, byte 's', 0] ++ uint32ToBytes m.bigEndian old.length = head := ⟨_, rfl⟩
  have hhead8 : head.length = 8 := by
    rw [← hhead, List.length_append, length_uint32ToBytes]
    rfl
  obtain ⟨tail, htail⟩ : ∃ tail, m.data = fixed ++ x ++ head ++ (old ++ 0 :: tail) := by
    refine ⟨List.replicate (gap 8 (senderStruct m.bigEndian old).length) 0 ++ (z ++ body), ?_⟩
    rw [hdata, padded, senderStruct, hhead]
    simp only [List.append_assoc, List.cons_append, List.nil_append]
  have hposition : (fixed ++ x ++ head).length = messageHeaderSize + x.length + 8 := by
    rw [List.length_append, List.length_append, hfixed, hhead8]
  have hzero : ∀ c ∈ old, decide (c ≠ 0) = true := fun c hc =>
    decide_eq_true fun h => zero_notMem_of_dbusValidateName hname (h ▸ hc)
  rw [Message.strlen, htail, List.drop_left' hposition, List.takeWhile_append_of_pos hzero]
  simp

/-- The sender field is cut out of the header. -/
theorem messageCutSender_eq {old : Bytes} (hfixed : fixed.length = messageHeaderSize)
    (hdata : m.data = fixed ++ (x ++ (padded 0 8 (senderStruct m.bigEndian old) ++ (z ++ body))))
    (hname : dbusValidateName old = true)
    (hvec0 : m.vec0 = ⟨some (.data 0),
      messageHeaderSize + (x.length + ((padded 0 8 (senderStruct m.bigEndian old)).length + z.length))⟩)
    (hheader : alignTo8 m.nHeader =
      messageHeaderSize + (x.length + ((padded 0 8 (senderStruct m.bigEndian old)).length + z.length))) :
    messageCutSender m (messageHeaderSize + x.length + 8) =
      { m with
        vec0 := ⟨some (.data 0), messageHeaderSize + x.length⟩
        vec1 := ⟨some (.data (messageHeaderSize + x.length + (padded 0 8 (senderStruct m.bigEndian old)).length)),
          z.length⟩ } := by
  have hstrlen := strlen_sender hfixed hdata hname
  have hlen : (padded 0 8 (senderStruct m.bigEndian old)).length = alignTo8 (senderFieldSize old.length) := by
    rw [length_padded (by decide), length_senderStruct]
    rfl
  have hle : senderFieldSize old.length ≤ alignTo8 (senderFieldSize old.length) :=
    le_align (k := 8) (by decide) _
  rw [hlen] at hvec0 hheader ⊢
  have hcheck : decide (messageHeaderSize + x.length + 8 + old.length + 1 ≤ alignTo8 m.nHeader) = true := by
    rw [hheader]
    refine decide_eq_true ?_
    rw [senderFieldSize] at hle ⊢
    omega
  have hstart (n : ℕ) : IoVec.start ⟨some (.data 0), n⟩ = 0 := rfl
  have hfield : messageHeaderSize + x.length + 8 - (1 + 3 + 4) = messageHeaderSize + x.length := by omega
  have hrest : messageHeaderSize + (x.length + (alignTo8 (senderFieldSize old.length) + z.length)) -
      (messageHeaderSize + x.length + alignTo8 (senderFieldSize old.length)) = z.length := by omega
  simp only [messageCutSender, Message.check, hstrlen, hcheck, Bool.not_true, Bool.or_false, hvec0, hstart, hfield,
    hrest, Nat.sub_zero]

/-- The assertions in front of the cut hold of every parsed message that was not stitched yet. -/
theorem messageStitchSender_eq (m : Message) {senderId : ℕ} (hid : senderId < 2 ^ 64) (hparsed : m.parsed = true)
    (hvec1 : m.vec1 = ⟨none, 0⟩) (hvec2 : m.vec2 = ⟨none, 0⟩) :
    messageStitchSender m senderId =
      messageAppendSender
        (m.originalSender.elim { m with metadata := { m.metadata with senderId := some senderId } }
          (messageCutSender { m with metadata := { m.metadata with senderId := some senderId } }))
        (addressIdToString senderId) := by
  have hlen := length_addressIdToString_le hid
  have hpatch : decide (alignTo8 (senderFieldSize (addressIdToString senderId).length) ≤ messagePatchMax) = true := by
    refine decide_eq_true ?_
    rw [senderFieldSize, alignTo8, messagePatchMax, alignTo8, addressIdStringMax, decimalMax]
    omega
  have hstring : decide ((addressIdToString senderId).length ≤ addressIdStringMax) = true := by
    refine decide_eq_true ?_
    rw [addressIdStringMax, decimalMax]
    omega
  simp only [messageStitchSender, Message.check, hparsed, hvec1, hvec2, hpatch, hstring, Option.isNone_none, BEq.rfl,
    Bool.and_self, Bool.not_true, Bool.or_false]

/-- What `message_stitch_sender` makes of a message, seen from outside. -/
structure Stitched (m m' : Message) (senderId : ℕ) : Prop where
  /-- What is sent is a message, in the byte order of the old one and with its metadata but for the sender. -/
  wellFormed : ∃ parsed, WellFormed m.bigEndian m'.wire m.fds parsed ∧
    parsed.metadata = { m.metadata with fields := m.metadata.fields.withSender (some (addressIdToString senderId)) }
  /-- The header fields are the old ones without the sender, and the new sender behind them. -/
  fields : ∃ fields, headerFields m.bigEndian m.data = some fields ∧
    headerFields m.bigEndian m'.wire = some (fields.filter (fieldCode · ≠ dbusMessageFieldSender) ++
      [senderStruct m.bigEndian (addressIdToString senderId)])
  /-- The sizes are those of what is sent. -/
  nHeader : m'.nHeader = messageHeaderSize + headerNFields m.bigEndian m'.wire
  nData : m'.nData = m'.wire.length
  /-- The body is the old one, at an aligned position. -/
  body : ∃ front, m'.wire = front ++ (m.data.drop m.body).take m.nBody ∧ 8 ∣ front.length
  /-- The patch fits its buffer. -/
  patch : m'.vec2.len ≤ messagePatchMax ∧ m'.patch.length = messagePatchMax
  asserts : m'.assertFailed = false

/-- The fields of an accepted message without the sender. -/
structure Others (bigEndian : Bool) (nFds : ℕ) (bs others : List Bytes) (s : HeaderParse) (g : Fields) : Prop where
  parse : parseFields bigEndian nFds messageHeaderSize ⟨.init, none⟩ others = some ⟨g, none⟩
  noSender : g.NoSender
  filter : bs.filter (fieldCode · ≠ dbusMessageFieldSender) = others
  fields : s.fields = g ∨ ∃ old, s.fields = g.withSender old

theorem Others.withSender {bigEndian : Bool} {nFds : ℕ} {bs others : List Bytes} {s : HeaderParse} {g : Fields}
    (h : Others bigEndian nFds bs others s g) (sender : Option Bytes) :
    ({ s.fields with signature := some (s.fields.signature.getD []) } : Fields).withSender sender =
      { g.withSender sender with signature := some (g.signature.getD []) } := by
  rcases h.fields with hs | ⟨old, hs⟩
  · rw [hs]
    rfl
  · rw [hs]
    simp only [Fields.withSender, Nat.or_assoc, Nat.or_self]

/-- A stitched wire has what is asked of a stitched message. -/
theorem stitched_of_wire {bs others : List Bytes} {s : HeaderParse} {g : Fields} {args : List MessageArg} {m' : Message}
    {senderId : ℕ} (hframed : Framed m₀ fixed fields blank body) (hlayout : fields = layout 0 8 messageHeaderSize bs)
    (hparse : parseFields m₀.bigEndian (fdlistCount m₀.fds) messageHeaderSize ⟨.init, none⟩ bs = some s)
    (hvalid : ValidHeader (fixedHeader m₀.bigEndian fixed) s.fields)
    (hargs : messageParseBody m₀.bigEndian (s.fields.signature.getD []) body = .ok args)
    (hothers : Others m₀.bigEndian (fdlistCount m₀.fds) bs others s g) (hid : senderId < 2 ^ 64)
    (hsize : (stitchedFields m₀.bigEndian others (addressIdToString senderId)).length < 2 ^ 32)
    (hwire : m'.wire = stitchedWire m₀.bigEndian fixed others (addressIdToString senderId) body) :
    (∃ parsed, WellFormed m₀.bigEndian m'.wire (m₀.fds.map (·.take s.fields.unixFds)) parsed ∧
      parsed.metadata = { (parsedMessage m₀ (fixedHeader m₀.bigEndian fixed) s args).metadata with
        fields := (parsedMessage m₀ (fixedHeader m₀.bigEndian fixed) s args).metadata.fields.withSender
          (some (addressIdToString senderId)) }) ∧
      headerFields m₀.bigEndian m₀.data = some bs ∧
        headerFields m₀.bigEndian m'.wire = some (bs.filter (fieldCode · ≠ dbusMessageFieldSender) ++
          [senderStruct m₀.bigEndian (addressIdToString senderId)]) := by
  have hname := dbusValidateName_addressIdToString hid
  have hstring := cDvarIsString_addressIdToString senderId
  have hlong : (addressIdToString senderId).length < 2 ^ 32 :=
    lt_of_le_of_lt (length_le_of_dbusValidateName hname) (by decide)
  have hunix : s.fields.unixFds = g.unixFds ∧ s.fields.signature = g.signature := by
    rcases hothers.fields with hs | ⟨old, hs⟩ <;> rw [hs] <;> exact ⟨rfl, rfl⟩
  have hvalid' : ValidHeader (fixedHeader m₀.bigEndian fixed) g := by
    rcases hothers.fields with hs | ⟨old, hs⟩
    · rwa [hs] at hvalid
    · rw [hs] at hvalid
      exact validHeader_withSender.mp hvalid
  have hcount : g.unixFds ≤ fdlistCount (m₀.fds.map (·.take s.fields.unixFds)) := by
    have hle : g.unixFds ≤ fdlistCount m₀.fds := unixFds_le_of_parseFields hothers.parse (Nat.zero_le _)
    cases hfds : m₀.fds with
    | none =>
      rw [hfds] at hle
      exact hle
    | some fds =>
      rw [hfds] at hle
      change g.unixFds ≤ (fds.take s.fields.unixFds).length
      rw [List.length_take, hunix.1]
      exact Nat.le_min.mpr ⟨Nat.le_refl _, hle⟩
  have hparse' := (parseFields_of_enough hothers.parse hcount).1
  rw [hunix.2] at hargs
  obtain ⟨fx, t, hwell, hfx, ht⟩ := wellFormed_stitchedWire hframed.length_fixed hframed.endian hframed.nBody hparse'
    hothers.noSender hvalid' hargs hname hstring hsize
  have hstructs : ∀ b ∈ others, whole (fieldStruct m₀.bigEndian) b = some () := fieldStruct_of_parseFields hothers.parse
  have hnew : whole (fieldStruct m₀.bigEndian) (senderStruct m₀.bigEndian (addressIdToString senderId)) = some () := by
    have hwhole : whole (messageReadField m₀.bigEndian 0 g) (senderStruct m₀.bigEndian (addressIdToString senderId)) =
        some (dbusMessageFieldSender, g.withSender (some (addressIdToString senderId))) :=
      whole_senderField_iff.mpr ⟨hothers.noSender.available, _, rfl, hlong, hstring, hname, rfl⟩
    exact (fieldStruct_of_whole hwhole).1
  refine ⟨⟨_, hwire ▸ hwell, ?_⟩, ?_, ?_⟩
  · have hwith := hothers.withSender (some (addressIdToString senderId))
    simp only [parsedMessage, hfx, ht, hwith]
    rw [hframed.message]
    rfl
  · have hdata : m₀.data = fixed ++ (fields ++ (blank ++ body)) := by
      rw [hframed.message]
      rfl
    have hcollect := collectFields_layout (o := messageHeaderSize) (fieldStruct_of_parseFields hparse)
    rw [headerFields, hdata, (header_append hframed.length_fixed _ _).1, hframed.nFields,
      List.drop_left' hframed.length_fixed, List.take_left' rfl, hlayout, hcollect]
  · rw [hwire, hothers.filter]
    exact headerFields_stitchedWire hframed.length_fixed hstructs hnew hsize

/-- The sizes of the parts of a stitched wire. -/
theorem length_stitchedWire (bigEndian : Bool) (others : List Bytes) (sender body : Bytes)
    (hfixed : fixed.length = messageHeaderSize) :
    (stitchedWire bigEndian fixed others sender body).length =
      alignTo8 (messageHeaderSize + (stitchedFields bigEndian others sender).length) + body.length := by
  have hhead := length_withNFields bigEndian (stitchedFields bigEndian others sender).length hfixed
  have hgap := add_gap (k := 8) (by decide) (messageHeaderSize + (stitchedFields bigEndian others sender).length)
  rw [stitchedWire_eq]
  simp only [List.length_append, List.length_replicate, hhead]
  change _ = align 8 _ + _
  omega

/-- The body of a stitched wire stands behind a header of aligned size. -/
theorem stitchedWire_body (bigEndian : Bool) (others : List Bytes) (sender body : Bytes)
    (hfixed : fixed.length = messageHeaderSize) :
    ∃ front, stitchedWire bigEndian fixed others sender body = front ++ body ∧ 8 ∣ front.length := by
  have hhead := length_withNFields bigEndian (stitchedFields bigEndian others sender).length hfixed
  refine ⟨withNFields bigEndian fixed (stitchedFields bigEndian others sender).length ++
    (others ++ [senderStruct bigEndian sender]).flatMap (padded 0 8), ?_, ?_⟩
  · simp only [stitchedWire, List.flatMap_append, List.flatMap_singleton, List.append_assoc]
  · rw [List.length_append, hhead]
    exact Nat.dvd_add (by decide) (dvd_length_flatMap_padded (by decide) _)

/-- A message whose old sender is out of the way, as far as stitching looks at it. -/
structure Cut (m₀ m₁ : Message) (fixed body x y z : Bytes) : Prop where
  bigEndian : m₁.bigEndian = m₀.bigEndian
  nBody : m₁.nBody = body.length
  patch : m₁.patch.length = messagePatchMax
  asserts : m₁.assertFailed = false
  data : m₁.data = fixed ++ (x ++ (y ++ (z ++ body)))
  vec0 : m₁.vec0 = ⟨some (.data 0), messageHeaderSize + x.length⟩
  vec1 : m₁.vec1 = ⟨some (.data (messageHeaderSize + x.length + y.length)), z.length⟩ ∨ m₁.vec1 = ⟨none, 0⟩ ∧ z = []
  vec3 : m₁.vec3 = ⟨some (.data (messageHeaderSize + x.length + y.length + z.length)), body.length⟩

/-- Appending the sender to such a message gives a stitched message. -/
theorem Cut.stitched {m₁ : Message} {bs others : List Bytes} {s : HeaderParse} {g : Fields} {args : List MessageArg}
    {senderId : ℕ} (h : Cut m₀ m₁ fixed body x y z) (hframed : Framed m₀ fixed fields blank body)
    (hmax : m₀.nData ≤ messageSizeMax) (hlayout : fields = layout 0 8 messageHeaderSize bs)
    (hparse : parseFields m₀.bigEndian (fdlistCount m₀.fds) messageHeaderSize ⟨.init, none⟩ bs = some s)
    (hvalid : ValidHeader (fixedHeader m₀.bigEndian fixed) s.fields)
    (hargs : messageParseBody m₀.bigEndian (s.fields.signature.getD []) body = .ok args)
    (hothers : Others m₀.bigEndian (fdlistCount m₀.fds) bs others s g) (hid : senderId < 2 ^ 64)
    (hflat : others.flatMap (padded 0 8) = x ++ z)
    (hsize : messageHeaderSize + (x.length + z.length) ≤ alignTo8 m₀.nHeader) :
    Stitched (parsedMessage m₀ (fixedHeader m₀.bigEndian fixed) s args)
      (messageAppendSender m₁ (addressIdToString senderId)) senderId := by
  have hlen := length_addressIdToString_le hid
  have hfieldsLength : (stitchedFields m₀.bigEndian others (addressIdToString senderId)).length =
      x.length + z.length + senderFieldSize (addressIdToString senderId).length := by
    rw [stitchedFields, hflat, List.length_append, List.length_append, length_senderStruct]
  have hnData : m₀.nData = alignTo8 m₀.nHeader + body.length := by
    rw [hframed.message]
    rfl
  have hshort : (stitchedFields m₀.bigEndian others (addressIdToString senderId)).length < 2 ^ 32 := by
    rw [hfieldsLength, senderFieldSize]
    rw [messageSizeMax] at hmax
    omega
  have hwire : (messageAppendSender m₁ (addressIdToString senderId)).wire =
      stitchedWire m₀.bigEndian fixed others (addressIdToString senderId) body := by
    rw [wire_messageAppendSender hframed.length_fixed h.data h.vec0 h.vec1 h.vec3, h.bigEndian, stitchedWire,
      hfieldsLength, hflat, senderPatch_eq, List.append_assoc]
  obtain ⟨hwell, hold, hnew⟩ := stitched_of_wire hframed hlayout hparse hvalid hargs hothers hid hshort hwire
  have hnHeader : (messageAppendSender m₁ (addressIdToString senderId)).nHeader =
      messageHeaderSize + (stitchedFields m₀.bigEndian others (addressIdToString senderId)).length := by
    have hlen1 : m₁.vec1.len = z.length := by
      rcases h.vec1 with hvec | ⟨hvec, rfl⟩ <;> rw [hvec]
      rfl
    rw [hfieldsLength]
    change m₁.vec0.len + m₁.vec1.len + _ = _
    rw [hlen1, h.vec0, ← Nat.add_assoc, ← Nat.add_assoc]
  have hbody : (m₀.data.drop m₀.body).take m₀.nBody = body := hframed.take_body
  obtain ⟨front, hfront, haligned⟩ :=
    stitchedWire_body m₀.bigEndian others (addressIdToString senderId) body hframed.length_fixed
  have hnFields : headerNFields m₀.bigEndian (messageAppendSender m₁ (addressIdToString senderId)).wire =
      (stitchedFields m₀.bigEndian others (addressIdToString senderId)).length := by
    have hfixed := fixedHeader_withNFields m₀.bigEndian hframed.length_fixed hshort
    rw [hwire, stitchedWire, (header_append (length_withNFields _ _ hframed.length_fixed) _ _).1, hfixed.2.1]
  have hstitch : alignTo8 (senderFieldSize (addressIdToString senderId).length) ≤ messagePatchMax := by
    rw [senderFieldSize, alignTo8, messagePatchMax, alignTo8, addressIdStringMax, decimalMax]
    omega
  refine ⟨hwell, ⟨bs, hold, hnew⟩, hnFields ▸ hnHeader, ?_, ⟨front, ?_, haligned⟩, ⟨hstitch, ?_⟩, h.asserts⟩
  · change alignTo8 (messageAppendSender m₁ (addressIdToString senderId)).nHeader + m₁.nBody = _
    rw [hnHeader, hwire, length_stitchedWire _ _ _ _ hframed.length_fixed, h.nBody]
  · change _ = front ++ (m₀.data.drop m₀.body).take m₀.nBody
    rw [hwire, hfront, hbody]
  · have hpatch : (senderPatch m₁.bigEndian (addressIdToString senderId)).length =
        alignTo8 (senderFieldSize (addressIdToString senderId).length) := by
      rw [senderPatch_eq, length_padded (by decide), length_senderStruct]
      rfl
    change (senderPatch m₁.bigEndian _ ++ m₁.patch.drop _).length = _
    rw [List.length_append, List.length_drop, h.patch, hpatch, Nat.add_sub_cancel' hstitch]

/-- The room that the padded sender field takes in the header of a parsed message. -/
def oldSenderSize (m : Message) : ℕ := m.metadata.fields.sender.elim 0 fun old => alignTo8 (senderFieldSize old.length)

/-- An accepted message as stitching takes it: its fields with and without the sender, and the message `m₁` whose old
sender `y` is out of the way. -/
structure Dissected (m₀ m m₁ : Message) (senderId : ℕ) (fixed fields blank body : Bytes) (bs others : List Bytes)
    (s : HeaderParse) (g : Fields) (args : List MessageArg) (x y z : Bytes) : Prop where
  framed : Framed m₀ fixed fields blank body
  layout : fields = layout 0 8 messageHeaderSize bs
  parse : parseFields m₀.bigEndian (fdlistCount m₀.fds) messageHeaderSize ⟨.init, none⟩ bs = some s
  valid : ValidHeader (fixedHeader m₀.bigEndian fixed) s.fields
  arguments : messageParseBody m₀.bigEndian (s.fields.signature.getD []) body = .ok args
  parsed : m = parsedMessage m₀ (fixedHeader m₀.bigEndian fixed) s args
  remaining : Others m₀.bigEndian (fdlistCount m₀.fds) bs others s g
  flat : others.flatMap (padded 0 8) = x ++ z
  size : messageHeaderSize + (x.length + (y.length + z.length)) = alignTo8 m₀.nHeader
  old : y.length = oldSenderSize m
  cut : Cut m₀ m₁ fixed body x y z
  stitch : messageStitchSender m senderId = messageAppendSender m₁ (addressIdToString senderId)

/-- Every accepted message is taken apart like this. -/
theorem exists_dissected {header payload : Bytes} {fds : Option (List ℕ)} {senderId : ℕ}
    (hreceived : Received m₀ header payload fds) (haccepted : messageParseMetadata m₀ = .ok m)
    (hid : senderId < 2 ^ 64) :
    ∃ m₁ fixed fields blank body bs others s g args x y z,
      Dissected m₀ m m₁ senderId fixed fields blank body bs others s g args x y z := by
  obtain ⟨-, fixed, fields, blank, body, -, hframed⟩ := hreceived.framed
  obtain ⟨bs, s, args, hlayout, hparse, hvalid, hblank, hargs, rfl⟩ :=
    hframed.messageParseMetadata_eq_ok_iff.mp haccepted
  obtain ⟨hdata, hheader⟩ := hframed.data_eq hlayout hblank
  have hnHeader : m₀.nHeader = messageHeaderSize + fields.length := by rw [hframed.message]; rfl
  obtain ⟨hvec0, hvec1, hvec2, hvec3⟩ : m₀.vec0 = ⟨some (.data 0), alignTo8 m₀.nHeader⟩ ∧ m₀.vec1 = ⟨none, 0⟩ ∧
      m₀.vec2 = ⟨none, 0⟩ ∧ m₀.vec3 = ⟨some (.data (alignTo8 m₀.nHeader)), body.length⟩ := by
    rw [hnHeader, hframed.message]
    exact ⟨rfl, rfl, rfl, rfl⟩
  obtain ⟨hnBody, hpatch, hasserts⟩ : m₀.nBody = body.length ∧ m₀.patch.length = messagePatchMax ∧
      m₀.assertFailed = false := by
    rw [hframed.message]
    exact ⟨rfl, List.length_replicate, rfl⟩
  rw [hheader] at hvec0 hvec3
  obtain ⟨m, hm⟩ : ∃ m, parsedMessage m₀ (fixedHeader m₀.bigEndian fixed) s args = m := ⟨_, rfl⟩
  obtain ⟨m₁, hm₁⟩ : ∃ m₁ : Message, { m with metadata := { m.metadata with senderId := some senderId } } = m₁ := ⟨_, rfl⟩
  have hstitch : messageStitchSender m senderId =
      messageAppendSender (s.originalSender.elim m₁ (messageCutSender m₁)) (addressIdToString senderId) := by
    rw [messageStitchSender_eq m hid (hm ▸ rfl) (hm ▸ hvec1) (hm ▸ hvec2), hm₁, ← hm]
    rfl
  have hsender : m.metadata.fields.sender = s.fields.sender := by
    rw [← hm]
    rfl
  obtain ⟨hendian₁, hnBody₁, hpatch₁, hasserts₁, hdata₁, hvec0₁, hvec1₁, hvec3₁, hnHeader₁⟩ :
      m₁.bigEndian = m₀.bigEndian ∧ m₁.nBody = m₀.nBody ∧ m₁.patch = m₀.patch ∧
        m₁.assertFailed = m₀.assertFailed ∧ m₁.data = m₀.data ∧ m₁.vec0 = m₀.vec0 ∧ m₁.vec1 = m₀.vec1 ∧
          m₁.vec3 = m₀.vec3 ∧ m₁.nHeader = m₀.nHeader := by
    subst hm₁ hm
    exact ⟨rfl, rfl, rfl, rfl, rfl, rfl, rfl, rfl, rfl⟩
  rw [hm]
  cases senderSplit_of_parseFields (f := .init) ⟨rfl, rfl⟩ hparse with
  | absent hcodes hposition hnoSender =>
    have hothers : Others m₀.bigEndian (fdlistCount m₀.fds) bs bs s s.fields := by
      refine ⟨?_, hnoSender, List.filter_eq_self.mpr fun b hb => decide_eq_true (hcodes b hb), .inl rfl⟩
      rw [hparse, ← hposition]
    have hcut : Cut m₀ m₁ fixed body (bs.flatMap (padded 0 8)) [] [] :=
      ⟨hendian₁, hnBody₁.trans hnBody, hpatch₁ ▸ hpatch, hasserts₁.trans hasserts, hdata₁.trans hdata,
        hvec0₁.trans hvec0, .inr ⟨hvec1₁.trans hvec1, rfl⟩, hvec3₁.trans hvec3⟩
    have hold : ([] : Bytes).length = oldSenderSize m := by
      rw [oldSenderSize, hsender, hnoSender.sender]
      rfl
    rw [hposition] at hstitch
    exact ⟨m₁, fixed, fields, blank, body, bs, bs, s, s.fields, args, _, [], [], hframed, hlayout, hparse, hvalid, hargs,
      hm.symm, hothers, (List.append_nil _).symm, hheader.symm, hold, hcut, hstitch⟩
  | found before after old g hsplit hname hcodes hfields hposition hg hothers =>
    obtain ⟨x, hx⟩ : ∃ x, before.flatMap (padded 0 8) = x := ⟨_, rfl⟩
    obtain ⟨z, hz⟩ : ∃ z, after.flatMap (padded 0 8) = z := ⟨_, rfl⟩
    have hflat : bs.flatMap (padded 0 8) = x ++ (padded 0 8 (senderStruct m₀.bigEndian old) ++ z) := by
      rw [hsplit, List.flatMap_append, List.flatMap_cons, hx, hz]
    have hposition' : s.originalSender = some (messageHeaderSize + x.length + 8) := by
      rw [hposition, align_length_layout (by decide) (by decide), hx]
    have hlength : messageHeaderSize + (bs.flatMap (padded 0 8)).length =
        messageHeaderSize + (x.length + ((padded 0 8 (senderStruct m₀.bigEndian old)).length + z.length)) := by
      rw [hflat, List.length_append, List.length_append]
    have hothers' : Others m₀.bigEndian (fdlistCount m₀.fds) bs (before ++ after) s g := by
      refine ⟨hothers _, hg, ?_, .inr ⟨_, hfields⟩⟩
      have hdrop : decide (fieldCode (senderStruct m₀.bigEndian old) ≠ dbusMessageFieldSender) = false :=
        decide_eq_false (not_not.mpr rfl)
      have hall (b : Bytes) (hb : b ∈ before ++ after) : decide (fieldCode b ≠ dbusMessageFieldSender) = true :=
        decide_eq_true (hcodes b hb)
      rw [hsplit, List.filter_append, List.filter_cons, hdrop,
        List.filter_eq_self.mpr fun b hb => hall b (List.mem_append_left _ hb)]
      simp only [Bool.false_eq_true, if_false]
      rw [List.filter_eq_self.mpr fun b hb => hall b (List.mem_append_right _ hb)]
    have hdata' : m₁.data = fixed ++ (x ++ (padded 0 8 (senderStruct m₁.bigEndian old) ++ (z ++ body))) := by
      rw [hdata₁, hdata, hflat, hendian₁, List.append_assoc, List.append_assoc]
    have hcutEq := messageCutSender_eq hframed.length_fixed hdata' hname
      (by rw [hvec0₁, hvec0, hlength, hendian₁]) (by rw [hnHeader₁, hheader, hlength, hendian₁])
    have hcut : Cut m₀ (messageCutSender m₁ (messageHeaderSize + x.length + 8)) fixed body x
        (padded 0 8 (senderStruct m₀.bigEndian old)) z := by
      rw [hcutEq]
      refine ⟨hendian₁, hnBody₁.trans hnBody, hpatch₁ ▸ hpatch, hasserts₁.trans hasserts, ?_, rfl, .inl ?_, ?_⟩
      · rw [← hendian₁]
        exact hdata'
      · rw [hendian₁]
      · change m₁.vec3 = _
        rw [hvec3₁, hvec3, hlength]
        simp only [Nat.add_assoc]
    have hold : (padded 0 8 (senderStruct m₀.bigEndian old)).length = oldSenderSize m := by
      rw [oldSenderSize, hsender, hfields, length_padded (by decide), length_senderStruct]
      rfl
    rw [hposition'] at hstitch
    refine ⟨_, fixed, fields, blank, body, bs, before ++ after, s, g, args, x, _, z, hframed, hlayout, hparse, hvalid, hargs,
      hm.symm, hothers', ?_, ?_, hold, hcut, hstitch⟩
    · rw [List.flatMap_append, hx, hz]
    · rw [hheader, hlength]

/-- Stitching the sender preserves the message. -/
theorem messageStitchSender_stitched {header payload : Bytes} {fds : Option (List ℕ)} {senderId : ℕ}
    (hreceived : Received m₀ header payload fds) (haccepted : messageParseMetadata m₀ = .ok m)
    (hid : senderId < 2 ^ 64 - 1) : Stitched m (messageStitchSender m senderId) senderId := by
  have hid64 : senderId < 2 ^ 64 := by omega
  obtain ⟨m₁, fixed, fields, blank, body, bs, others, s, g, args, x, y, z, h⟩ :=
    exists_dissected hreceived haccepted hid64
  have hsize : messageHeaderSize + (x.length + z.length) ≤ alignTo8 m₀.nHeader := by
    have hsize := h.size
    omega
  rw [h.stitch, h.parsed]
  exact h.cut.stitched h.framed hreceived.framed.1 h.layout h.parse h.valid h.arguments h.remaining hid64 h.flat hsize

end stitch

/-- The header of a signal without arguments. -/
def signalHeader : Bytes := [byte 'l', 4, 0, 1, 0, 0, 0, 0, 7, 0, 0, 0, 58, 0, 0, 0]

/-- Its fields: a path, a sender, an interface and a member. -/
def signalPayload : Bytes :=
  [1, 1, byte 'o', 0, 2, 0, 0, 0] ++ lit "/a" ++ [0, 0, 0, 0, 0, 0] ++ [7, 1, byte 's', 0, 4, 0, 0, 0] ++ lit ":1.5" ++
    [0, 0, 0, 0] ++ [2, 1, byte 's', 0, 3, 0, 0, 0] ++ lit "a.b" ++ [0, 0, 0, 0, 0] ++
      [3, 1, byte 's', 0, 1, 0, 0, 0] ++ lit "M" ++ [0, 0, 0, 0, 0, 0, 0]

/-- The signal as it is received. -/
def signalMessage : Message := (messageOf false signalHeader 74 0).fill signalPayload none

/-- The signal as it is parsed. -/
def signalParsed : Message :=
  parsedMessage signalMessage ⟨4, 0, 1, 7, 58⟩
    ⟨⟨142, some (lit "/a"), some (lit "a.b"), some (lit "M"), none, 0, none, some (lit ":1.5"), none, 0⟩, some 40⟩ []

/-- The sender of a signal is replaced. -/
theorem signal_stitched : Stitched signalParsed (messageStitchSender signalParsed 77) 77 :=
  messageStitchSender_stitched
    (⟨rfl, messageOf false signalHeader 74 0, rfl, rfl, rfl⟩ :
      Received signalMessage signalHeader signalPayload none)
    (by decide +kernel : messageParseMetadata signalMessage = .ok signalParsed) (by decide)

end Wire

end DbusBroker
