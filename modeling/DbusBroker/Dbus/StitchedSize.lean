import DbusBroker.Dbus.StitchedSender

/-!
# The size of a stitched message

`message_new_incoming` checks the declared size of a message against `MESSAGE_SIZE_MAX` before
anything is read. What `message_stitch_sender` sends is larger by the new sender field and
smaller by the one that it cuts out, and nothing checks it again: a message that the client sends
without a sender, or with a shorter one, can leave the limit by a few bytes.
-/

namespace DbusBroker

namespace Wire

open AlignedReader

/-- A message keeps to the limit, and a receiver that enforces the same limit takes its header. -/
def Message.WithinSizeMax (m : Message) : Prop :=
  m.nData ≤ messageSizeMax ∧ ∃ r, messageNewIncoming (m.wire.take messageHeaderSize) = .ok r

section size

variable {m₀ m m₁ : Message} {senderId : ℕ} {fixed fields blank body x y z : Bytes} {bs others : List Bytes}
  {s : HeaderParse} {g : Fields} {args : List MessageArg}

/-- The header in front of the new sender has an aligned size. -/
theorem Dissected.dvd_length (h : Dissected m₀ m m₁ senderId fixed fields blank body bs others s g args x y z) :
    8 ∣ x.length + z.length := by
  have hdvd : 8 ∣ (others.flatMap (padded 0 8)).length := dvd_length_flatMap_padded (by decide) others
  rwa [h.flat, List.length_append] at hdvd

/-- The new size is the old one with the new sender and without the old one. -/
theorem Dissected.nData_add (h : Dissected m₀ m m₁ senderId fixed fields blank body bs others s g args x y z) :
    (messageStitchSender m senderId).nData + oldSenderSize m =
      m₀.nData + alignTo8 (senderFieldSize (addressIdToString senderId).length) := by
  have hnew : (messageStitchSender m senderId).nData =
      alignTo8 (messageHeaderSize + x.length + z.length + senderFieldSize (addressIdToString senderId).length) +
        body.length := by
    have hlen1 : m₁.vec1.len = z.length := by
      rcases h.cut.vec1 with hvec | ⟨hvec, rfl⟩ <;> rw [hvec]
      rfl
    rw [h.stitch]
    change alignTo8 (m₁.vec0.len + m₁.vec1.len + _) + m₁.nBody = _
    rw [hlen1, h.cut.vec0, h.cut.nBody]
  have hold : m₀.nData = alignTo8 m₀.nHeader + body.length := by
    rw [h.framed.message]
    rfl
  have hdvd := h.dvd_length
  rw [hnew, hold, ← h.size, ← h.old, alignTo8, alignTo8, messageHeaderSize]
  omega

/-- What is sent has the size that the message says. -/
theorem Dissected.stitched (h : Dissected m₀ m m₁ senderId fixed fields blank body bs others s g args x y z)
    (hmax : m₀.nData ≤ messageSizeMax) (hid : senderId < 2 ^ 64) :
    Stitched m (messageStitchSender m senderId) senderId := by
  have hsize : messageHeaderSize + (x.length + z.length) ≤ alignTo8 m₀.nHeader := by
    have hsize := h.size
    omega
  rw [h.stitch, h.parsed]
  exact h.cut.stitched h.framed hmax h.layout h.parse h.valid h.arguments h.remaining hid h.flat hsize

end size

/-- A receiver takes the header of a stitched message if its size keeps to the limit. -/
theorem Stitched.withinSizeMax_iff {m m' : Message} {senderId : ℕ} (h : Stitched m m' senderId) :
    m'.WithinSizeMax ↔ m'.nData ≤ messageSizeMax := by
  refine ⟨fun hwithin => hwithin.1, fun hsize => ⟨hsize, ?_⟩⟩
  obtain ⟨parsed, hwell, -⟩ := h.wellFormed
  have hlength := hwell.size
  have hlong : messageHeaderSize ≤ m'.wire.length := by
    rw [hlength, alignTo8]
    omega
  have htake : (m'.wire.take messageHeaderSize).length = messageHeaderSize := List.length_take_of_le hlong
  obtain ⟨hnFields, hnBody⟩ := header_append htake m.bigEndian (m'.wire.drop messageHeaderSize)
  rw [List.take_append_drop] at hnFields hnBody
  have hhead : (m'.wire.take messageHeaderSize).head? = m'.wire.head? := by
    rw [List.head?_take, if_neg (by decide)]
  refine ⟨_, messageNewIncoming_eq_ok_iff.mpr ⟨m.bigEndian, hhead.trans hwell.endian, ?_, rfl⟩⟩
  rw [← hnFields, ← hnBody, ← hlength, ← h.nData]
  exact hsize

/-- A message can be forwarded within the limit exactly if the client left room for what the new sender takes more
than the old one. -/
theorem messageStitchSender_withinSizeMax_iff {m₀ m : Message} {header payload : Bytes} {fds : Option (List ℕ)}
    {senderId : ℕ} (hreceived : Received m₀ header payload fds) (haccepted : messageParseMetadata m₀ = .ok m)
    (hid : senderId < 2 ^ 64) :
    (messageStitchSender m senderId).WithinSizeMax ↔
      m₀.nData + alignTo8 (senderFieldSize (addressIdToString senderId).length) ≤
        messageSizeMax + oldSenderSize m := by
  obtain ⟨m₁, fixed, fields, blank, body, bs, others, s, g, args, x, y, z, h⟩ :=
    exists_dissected hreceived haccepted hid
  have hadd := h.nData_add
  rw [(h.stitched hreceived.framed.1 hid).withinSizeMax_iff]
  omega

/-- A short signal can be forwarded. -/
theorem signal_withinSizeMax : (messageStitchSender signalParsed 77).WithinSizeMax :=
  (messageStitchSender_withinSizeMax_iff
    (⟨rfl, messageOf false signalHeader 74 0, rfl, rfl, rfl⟩ :
      Received signalMessage signalHeader signalPayload none)
    (by decide +kernel : messageParseMetadata signalMessage = .ok signalParsed) (by decide)).mpr (by decide)

section large

/-- The length of a string that fills a message up to the limit. -/
def largeLength : ℕ := 134217651

/-- The header of a signal with this string. -/
def largeHeader : Bytes := [byte 'l', 4, 0, 1, 0xb8, 0xff, 0xff, 7, 7, 0, 0, 0, 55, 0, 0, 0]

/-- Its fields: a path, an interface, a member and a signature. -/
def largeStructs : List Bytes :=
  [[1, 1, byte 'o', 0, 2, 0, 0, 0] ++ lit "/a" ++ [0], [2, 1, byte 's', 0, 3, 0, 0, 0] ++ lit "a.b" ++ [0],
    [3, 1, byte 's', 0, 1, 0, 0, 0] ++ lit "M" ++ [0], [8, 1, byte 'g', 0, 1, byte 's', 0]]

/-- The fields as they are sent. -/
def largeFields : Bytes := layout 0 8 messageHeaderSize largeStructs

/-- The string. -/
def largeString : Bytes := List.replicate largeLength (byte 'a')

/-- The body. -/
def largeBody : Bytes := uint32ToBytes false largeLength ++ (largeString ++ [0])

/-- What the parser finds in the fields. -/
def largeParse : HeaderParse :=
  ⟨⟨270, some (lit "/a"), some (lit "a.b"), some (lit "M"), none, 0, none, none, some (lit "s"), 0⟩, none⟩

/-- The signal as it is received. -/
def largeMessage : Message := messageOf false (largeHeader ++ (largeFields ++ ([0] ++ largeBody))) 71 134217656

theorem length_largeBody : largeBody.length = 134217656 := by
  rw [largeBody, largeString, List.length_append, List.length_append, List.length_replicate, length_uint32ToBytes]
  rfl

/-- The string is read as it is. -/
theorem messageParseBody_large : messageParseBody false (lit "s") largeBody = .ok [⟨byte 's', some largeString⟩] := by
  have hstring : cDvarIsString largeString = true := by
    refine cDvarIsString_of_ascii fun c hc => ?_
    rw [List.eq_of_mem_replicate hc]
    decide
  have hlength : largeString.length = largeLength := List.length_replicate
  have hread : cDvarReadString false (byte 's') ⟨0, largeBody⟩ =
      .ok (largeString, ⟨largeLength + 5, []⟩) := by
    refine (cDvarReadString_eq_ok_iff (Nat.dvd_zero 4)).mpr ⟨?_, hstring, ?_, ?_⟩
    · rw [hlength]
      decide
    · rw [hlength]
      rfl
    · rw [hlength]
      exact (Nat.zero_add _).symm
  have htypes : cDvarTypes (lit "s") = [lit "s"] := by decide
  have harg : messageReadArg false 0 (lit "s") [] ⟨0, largeBody⟩ =
      .ok ([⟨byte 's', some largeString⟩], ⟨largeLength + 5, []⟩) := by
    rw [messageReadArg, if_pos (by decide), show (lit "s").headD 0 = byte 's' from rfl, bind_of_ok hread]
    rfl
  rw [messageParseBody, htypes, messageReadArgs, bind_of_ok harg]
  rfl

/-- The parts of the signal. -/
theorem framed_large : Framed largeMessage largeHeader largeFields [0] largeBody where
  message := by
    rw [length_largeBody]
    rfl
  length_fixed := rfl
  endian := rfl
  nFields := rfl
  nBody := by
    rw [length_largeBody]
    rfl
  length_blank := rfl

/-- The signal is received, and it has exactly the size of the limit. -/
theorem received_large : Received largeMessage largeHeader (largeFields ++ ([0] ++ largeBody)) none ∧
    largeMessage.nData = messageSizeMax := by
  refine ⟨⟨rfl, messageOf false largeHeader 71 134217656, rfl, ?_, rfl⟩, rfl⟩
  rw [List.length_append, List.length_append, length_largeBody]
  rfl

/-- The signal is accepted. -/
theorem accepted_large : messageParseMetadata largeMessage =
    .ok (parsedMessage largeMessage (fixedHeader false largeHeader) largeParse [⟨byte 's', some largeString⟩]) := by
  have hparse : parseFields false 0 messageHeaderSize ⟨.init, none⟩ largeStructs = some largeParse := rfl
  have hvalid : ValidHeader (fixedHeader false largeHeader) largeParse.fields := by
    rw [ValidHeader]
    decide
  exact framed_large.messageParseMetadata_eq_ok_iff.mpr
    ⟨largeStructs, largeParse, _, rfl, hparse, hvalid, rfl, messageParseBody_large, rfl⟩

end large

/-- A signal as large as a message may be cannot be forwarded within the limit. -/
theorem not_withinSizeMax : ¬ ∀ (m₀ m : Message) (header payload : Bytes) (fds : Option (List ℕ)) (senderId : ℕ),
    Received m₀ header payload fds → messageParseMetadata m₀ = .ok m → senderId < 2 ^ 64 →
      (messageStitchSender m senderId).WithinSizeMax := by
  intro h
  have hid : (1 : ℕ) < 2 ^ 64 := by decide
  have hwithin := h _ _ _ _ _ 1 received_large.1 accepted_large hid
  obtain ⟨m₁, fixed, fields, blank, body, bs, others, s, g, args, x, y, z, hd⟩ :=
    exists_dissected received_large.1 accepted_large hid
  have hadd := hd.nData_add
  have hsender : alignTo8 (senderFieldSize (addressIdToString 1).length) = 16 := rfl
  have hold : oldSenderSize
      (parsedMessage largeMessage (fixedHeader false largeHeader) largeParse [⟨byte 's', some largeString⟩]) = 0 := rfl
  have hmax := hwithin.1
  rw [hold, received_large.2, hsender] at hadd
  omega

end Wire

end DbusBroker
