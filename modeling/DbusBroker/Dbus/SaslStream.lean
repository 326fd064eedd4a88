import DbusBroker.Dbus.Sasl

/-!
# The zero byte in front of the stream

A client sends a zero byte in front of its first line. `sasl_server_dispatch` asks for it in
`SASL_SERVER_STATE_INIT`, and it is the commands that leave that state, not the first line: after
a line that is answered with an error the next one has to start with a zero byte again. Here the
server is compared with one that drops the first byte of the stream.
-/

namespace DbusBroker

/-- The answers of a server as the client sees them. Nothing is answered behind a line that ends the connection. -/
def SaslServer.replies : SaslServer → List Bytes → List (SaslResult × Option Bytes)
  | _, [] => []
  | sasl, line :: lines =>
    let answer := saslServerDispatch sasl line
    (answer.result, answer.output) :: if answer.result = .success then answer.server.replies lines else []

/-- The server that waits for a request to authenticate. -/
def SaslServer.awaiting (sasl : SaslServer) : SaslServer := { sasl with state := .auth }

/-- A line that makes a waiting server leave `SASL_SERVER_STATE_INIT`. -/
def SaslStarts (line : Bytes) : Prop := (saslSplit line).1 = lit "AUTH" ∨ (saslSplit line).1 = lit "ERROR"
  deriving Decidable

/-- Lines that are answered alike whether a zero byte is still expected or not: unknown commands, each with another
zero byte, up to a `BEGIN` that ends the connection either way. -/
inductive SaslUnheard : List Bytes → Prop
  | nil : SaslUnheard []
  | begins {line : Bytes} (lines : List Bytes) (h : SaslBegins line) : SaslUnheard (line :: lines)
  | unknown {line : Bytes} {lines : List Bytes} (hstarts : ¬SaslStarts line) (hbegins : ¬SaslBegins line)
      (hrest : SaslUnheard lines) : SaslUnheard ((0 :: line) :: lines)

variable {sasl : SaslServer} {line : Bytes}

/-- A zero byte belongs to the command. -/
theorem saslSplit_zero_cons (line : Bytes) : saslSplit (0 :: line) = (0 :: (saslSplit line).1, (saslSplit line).2) := rfl

/-- The first line behind its zero byte is a line for a waiting server. -/
theorem saslServerDispatch_init (h : sasl.state = .init) (line : Bytes) :
    saslServerDispatch sasl (0 :: line) = saslServerDispatchAuth sasl (saslSplit line).1 (saslSplit line).2 := by
  rw [saslServerDispatch, saslSplit_zero_cons, h]
  rfl

/-- A first line without a zero byte violates the protocol. -/
theorem saslServerDispatch_init_of_head (h : sasl.state = .init) (hhead : line.head? ≠ some 0) :
    saslServerDispatch sasl line = sasl.violation := by
  have hcmd : (saslSplit line).1.head? ≠ some 0 := by
    cases line with
    | nil => exact hhead
    | cons c rest =>
      rw [saslSplit, List.takeWhile_cons]
      by_cases hblank : (c != byte ' ') = true
      · rw [if_pos hblank]
        exact hhead
      · rw [if_neg hblank]
        simp
  obtain ⟨⟨cmd, arg⟩, hsplit⟩ : ∃ r, saslSplit line = r := ⟨_, rfl⟩
  rw [saslServerDispatch, h, hsplit]
  rw [hsplit] at hcmd
  cases cmd with
  | nil => rfl
  | cons c cmd =>
    have hc : c ≠ 0 := fun hzero => hcmd (congrArg some hzero)
    exact if_pos hc

/-- A command that starts an authentication, or asks to, leaves the state behind. -/
theorem saslServerDispatchAuth_awaiting {cmd : Bytes} (h : cmd = lit "AUTH" ∨ cmd = lit "ERROR") (arg : Bytes) :
    saslServerDispatchAuth sasl.awaiting cmd arg = saslServerDispatchAuth sasl cmd arg := by
  have hdata (input : Bytes) : saslServerHandleData sasl.awaiting input = saslServerHandleData sasl input := by
    rw [saslServerHandleData, saslServerHandleData]
    rfl
  rw [saslServerDispatchAuth, saslServerDispatchAuth]
  obtain hauth | herror := h
  · rw [if_pos hauth, if_pos hauth, saslServerHandleAuth, saslServerHandleAuth]
    simp only [hdata]
    rfl
  · rw [if_pos herror, if_pos herror]
    rfl

/-- Any other command is an error, but for the `BEGIN` that comes too early. -/
theorem saslServerDispatchAuth_other {cmd : Bytes} (h : ¬(cmd = lit "AUTH" ∨ cmd = lit "ERROR")) (arg : Bytes) :
    saslServerDispatchAuth sasl cmd arg = if cmd = lit "BEGIN" ∧ arg = [] then sasl.violation else sasl.error := by
  obtain ⟨hauth, herror⟩ := not_or.mp h
  rw [saslServerDispatchAuth, if_neg hauth, if_neg herror]

/-- A command that starts an authentication is not answered with an error. -/
theorem saslServerDispatchAuth_output {cmd : Bytes} (h : cmd = lit "AUTH" ∨ cmd = lit "ERROR") (arg : Bytes)
    (hok : sasl.okResponse ≠ lit "ERROR") :
    (saslServerDispatchAuth sasl cmd arg).result = .success ∧
      (saslServerDispatchAuth sasl cmd arg).output ≠ some (lit "ERROR") := by
  have hrejected : lit "REJECTED EXTERNAL" ≠ lit "ERROR" := by decide
  have hchallenge : lit "DATA" ≠ lit "ERROR" := by decide
  have hdata (input : Bytes) : (saslServerHandleData sasl input).result = .success ∧
      (saslServerHandleData sasl input).output ≠ some (lit "ERROR") := by
    rw [saslServerHandleData]
    split
    · exact ⟨rfl, fun heq => hrejected (Option.some.inj heq)⟩
    · exact ⟨rfl, fun heq => hok (Option.some.inj heq)⟩
  rw [saslServerDispatchAuth]
  obtain hauth | herror := h
  · obtain ⟨⟨protocol, identity⟩, hsplit⟩ : ∃ r, saslSplit arg = r := ⟨_, rfl⟩
    rw [if_pos hauth, saslServerHandleAuth, hsplit]
    dsimp only
    by_cases hprotocol : protocol = lit "EXTERNAL"
    · rw [if_pos hprotocol]
      by_cases hempty : identity = []
      · rw [if_neg (not_not.mpr hempty)]
        exact ⟨rfl, fun heq => hchallenge (Option.some.inj heq)⟩
      · rw [if_pos hempty]
        exact hdata identity
    · rw [if_neg hprotocol]
      exact ⟨rfl, fun heq => hrejected (Option.some.inj heq)⟩
  · have hauth : cmd ≠ lit "AUTH" := by
      rw [herror]
      decide
    rw [if_neg hauth, if_pos herror]
    exact ⟨rfl, fun heq => hrejected (Option.some.inj heq)⟩

/-- A waiting server takes every line but `BEGIN`. -/
theorem saslServerDispatchAuth_result (sasl : SaslServer) (cmd arg : Bytes) (hok : sasl.okResponse ≠ lit "ERROR") :
    (saslServerDispatchAuth sasl cmd arg).result = .success ↔ ¬(cmd = lit "BEGIN" ∧ arg = []) := by
  by_cases h : cmd = lit "AUTH" ∨ cmd = lit "ERROR"
  · have hbegin : cmd ≠ lit "BEGIN" := by
      obtain rfl | rfl := h <;> decide
    exact iff_of_true (saslServerDispatchAuth_output h arg hok).1 fun hb => hbegin hb.1
  · rw [saslServerDispatchAuth_other h]
    by_cases hbegin : cmd = lit "BEGIN" ∧ arg = []
    · rw [if_pos hbegin]
      exact iff_of_false SaslResult.noConfusion fun hno => hno hbegin
    · rw [if_neg hbegin]
      exact iff_of_true rfl hbegin

/-- An unknown command with another zero byte in front of it is not heard. -/
theorem saslUnheard_zero_cons {lines : List Bytes} :
    SaslUnheard ((0 :: line) :: lines) ↔ (¬SaslStarts line ∧ ¬SaslBegins line) ∧ SaslUnheard lines := by
  constructor
  · intro h
    cases h with
    | begins _ hbegins =>
      have hcmd : 0 :: (saslSplit line).1 = lit "BEGIN" := congrArg Prod.fst hbegins
      exact absurd (List.cons.inj hcmd).1 (by decide)
    | unknown hstarts hbegins hrest => exact ⟨⟨hstarts, hbegins⟩, hrest⟩
  · intro h
    exact .unknown h.1.1 h.1.2 h.2

/-- Only `BEGIN` is answered alike without a zero byte. -/
theorem saslUnheard_cons_of_head {lines : List Bytes} (hhead : line.head? ≠ some 0) :
    SaslUnheard (line :: lines) ↔ SaslBegins line := by
  constructor
  · intro h
    cases h with
    | begins _ hbegins => exact hbegins
    | unknown => exact absurd rfl hhead
  · exact fun h => .begins lines h

theorem SaslServer.replies_cons (sasl : SaslServer) (line : Bytes) (lines : List Bytes) :
    sasl.replies (line :: lines) =
      ((saslServerDispatch sasl line).result, (saslServerDispatch sasl line).output) ::
        if (saslServerDispatch sasl line).result = .success then (saslServerDispatch sasl line).server.replies lines
        else [] := rfl

/-- A server that still expects a zero byte answers like a waiting one exactly if it is not heard. -/
theorem SaslServer.replies_eq_iff_unheard (h : sasl.state = .init) (hok : sasl.okResponse ≠ lit "ERROR")
    (lines : List Bytes) : sasl.replies lines = sasl.awaiting.replies lines ↔ SaslUnheard lines := by
  induction lines with
  | nil => exact iff_of_true rfl .nil
  | cons line lines ih =>
    rw [replies_cons, replies_cons]
    by_cases hhead : line.head? = some 0
    · obtain ⟨line, rfl⟩ : ∃ rest, line = 0 :: rest := by
        cases line with
        | nil => cases hhead
        | cons c rest => exact ⟨rest, by rw [Option.some.inj hhead]⟩
      -- the waiting server does not know a command with a zero byte in front of it
      have hunknown : saslServerDispatch sasl.awaiting (0 :: line) = sasl.awaiting.error := by
        have hstarts : ¬(0 :: (saslSplit line).1 = lit "AUTH" ∨ 0 :: (saslSplit line).1 = lit "ERROR") := by
          rintro (heq | heq)
          · exact absurd (List.cons.inj heq).1 (by decide)
          · exact absurd (List.cons.inj heq).1 (by decide)
        have hbegin : ¬(0 :: (saslSplit line).1 = lit "BEGIN" ∧ (saslSplit line).2 = []) := fun hb =>
          absurd (List.cons.inj hb.1).1 (by decide)
        exact (saslServerDispatchAuth_other hstarts _).trans (if_neg hbegin)
      rw [hunknown, saslServerDispatch_init h, saslUnheard_zero_cons]
      by_cases hstarts : SaslStarts line
      · have houtput := (saslServerDispatchAuth_output hstarts (saslSplit line).2 hok).2
        exact iff_of_false (fun heq => houtput (congrArg Prod.snd (List.cons.inj heq).1)) fun hno => hno.1.1 hstarts
      · rw [saslServerDispatchAuth_other hstarts]
        by_cases hbegins : (saslSplit line).1 = lit "BEGIN" ∧ (saslSplit line).2 = []
        · rw [if_pos hbegins]
          exact iff_of_false (fun heq => SaslResult.noConfusion (congrArg Prod.fst (List.cons.inj heq).1))
            fun hno => hno.1.2 (Prod.ext hbegins.1 hbegins.2)
        · have hnot : ¬SaslBegins line := fun hb => hbegins ⟨congrArg Prod.fst hb, congrArg Prod.snd hb⟩
          rw [if_neg hbegins, and_iff_right ⟨hstarts, hnot⟩, ← ih]
          exact ⟨fun heq => (List.cons.inj heq).2, fun heq => congrArg (List.cons _) heq⟩
    · have hresult := saslServerDispatchAuth_result sasl.awaiting (saslSplit line).1 (saslSplit line).2 hok
      have hwaits : saslServerDispatch sasl.awaiting line =
          saslServerDispatchAuth sasl.awaiting (saslSplit line).1 (saslSplit line).2 := rfl
      rw [saslServerDispatch_init_of_head h hhead, saslUnheard_cons_of_head hhead, hwaits]
      by_cases hbegins : SaslBegins line
      · have hcmd : (saslSplit line).1 = lit "BEGIN" := congrArg Prod.fst hbegins
        have hstarts : ¬((saslSplit line).1 = lit "AUTH" ∨ (saslSplit line).1 = lit "ERROR") := by
          rw [hcmd]
          decide
        have hboth : (saslSplit line).1 = lit "BEGIN" ∧ (saslSplit line).2 = [] := ⟨hcmd, congrArg Prod.snd hbegins⟩
        rw [saslServerDispatchAuth_other hstarts, if_pos hboth]
        exact iff_of_true rfl hbegins
      · have hsuccess := hresult.mpr fun hb => hbegins (Prod.ext hb.1 hb.2)
        rw [hsuccess]
        exact iff_of_false (fun heq => SaslResult.noConfusion (congrArg Prod.fst (List.cons.inj heq).1)) hbegins

/-- A new server does not welcome anybody with an error. -/
theorem okResponse_saslServerInit (uid : UInt32) (guid : Bytes) : (saslServerInit uid guid).okResponse ≠ lit "ERROR" := by
  intro h
  have hhead : (saslServerInit uid guid).okResponse.head? = some (byte 'O') := rfl
  rw [h] at hhead
  exact absurd hhead (by decide)

/-- The answers to a stream of lines with one zero byte in front are those of a server that drops the first byte and
waits for a request, exactly if the first line starts or ends the conversation, or nothing that follows is heard. -/
theorem saslServer_replies_eq_iff (uid : UInt32) (guid first : Bytes) (lines : List Bytes) :
    (saslServerInit uid guid).replies ((0 :: first) :: lines) =
        (saslServerInit uid guid).awaiting.replies (first :: lines) ↔
      SaslStarts first ∨ SaslBegins first ∨ SaslUnheard lines := by
  obtain ⟨sasl, hsasl⟩ : ∃ sasl, saslServerInit uid guid = sasl := ⟨_, rfl⟩
  have hinit : sasl.state = .init := hsasl ▸ rfl
  have hok : sasl.okResponse ≠ lit "ERROR" := hsasl ▸ okResponse_saslServerInit uid guid
  have hwaits : saslServerDispatch sasl.awaiting first =
      saslServerDispatchAuth sasl.awaiting (saslSplit first).1 (saslSplit first).2 := rfl
  rw [hsasl, SaslServer.replies_cons, SaslServer.replies_cons, saslServerDispatch_init hinit, hwaits]
  by_cases hstarts : SaslStarts first
  · rw [saslServerDispatchAuth_awaiting hstarts]
    exact iff_of_true rfl (.inl hstarts)
  · rw [saslServerDispatchAuth_other hstarts, saslServerDispatchAuth_other hstarts, or_iff_right hstarts]
    by_cases hbegins : (saslSplit first).1 = lit "BEGIN" ∧ (saslSplit first).2 = []
    · rw [if_pos hbegins, if_pos hbegins]
      exact iff_of_true rfl (.inl (Prod.ext hbegins.1 hbegins.2))
    · have hnot : ¬SaslBegins first := fun hb => hbegins ⟨congrArg Prod.fst hb, congrArg Prod.snd hb⟩
      rw [if_neg hbegins, if_neg hbegins, or_iff_right hnot, ← sasl.replies_eq_iff_unheard hinit hok]
      exact ⟨fun heq => (List.cons.inj heq).2, fun heq => congrArg (List.cons _) heq⟩

/-- A client that tries an unknown command first is thrown out when it asks for `EXTERNAL`. -/
theorem saslServer_expects_zero_twice :
    (saslServerDispatch (saslServerInit 1000 []) (0 :: lit "HELLO")).result = .success ∧
      (saslServerInit 1000 []).replies [0 :: lit "HELLO", lit "AUTH EXTERNAL"] =
        [(.success, some (lit "ERROR")), (.protocolViolation, none)] ∧
      (saslServerInit 1000 []).awaiting.replies [lit "HELLO", lit "AUTH EXTERNAL"] =
        [(.success, some (lit "ERROR")), (.success, some (lit "DATA"))] := by decide

end DbusBroker
