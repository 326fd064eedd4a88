import DbusBroker.Lib.Run
import DbusBroker.Util.Strings
import Mathlib.Data.List.Induction

/-!
# SASL

The server side of the authentication, from `dbus/sasl.c`. A line is answered by a command of
the protocol, and it moves the server between its states. The server is done after `BEGIN`, and
what has to come before it is read off the lines alone: an exchange that authenticates the
user of the socket, and nothing behind it that revokes it.
-/

namespace DbusBroker

/-- `SASL_SERVER_STATE_*`. -/
inductive SaslServerState where
  | init
  | done
  | auth
  | challenge
  | authenticated
  | negotiatedFds
  deriving DecidableEq, Repr

/-- `SASLServer`. -/
structure SaslServer where
  state : SaslServerState
  fdsAllowed : Bool
  uid : UInt32
  okResponse : Bytes
  deriving DecidableEq, Repr

/-- What `sasl_server_dispatch` returns. -/
inductive SaslResult where
  | success
  | protocolViolation
  | notRecoverable
  deriving DecidableEq, Repr

/-- The server after a line, the result, and the output if there is any. -/
structure SaslAnswer where
  server : SaslServer
  result : SaslResult
  output : Option Bytes
  deriving DecidableEq, Repr

/-- `sasl_split`: the command, and the argument without the blanks in front of it. -/
def saslSplit (input : Bytes) : Bytes × Bytes :=
  (input.takeWhile (· != byte ' '), (input.dropWhile (· != byte ' ')).dropWhile (· == byte ' '))

/-- `sasl_server_init`. -/
def saslServerInit (uid : UInt32) (guid : Bytes) : SaslServer :=
  ⟨.init, false, uid, lit "OK " ++ stringToHex (guid.take 16)⟩

/-- The user as `EXTERNAL` encodes it: the decimal number, in hexadecimal digits. -/
def saslIdentity (uid : UInt32) : Bytes := stringToHex (lit (toString uid.toNat))

/-- The answer to an authentication that failed, was cancelled or is not supported. -/
def SaslServer.reject (sasl : SaslServer) : SaslAnswer :=
  ⟨{ sasl with state := .auth }, .success, some (lit "REJECTED EXTERNAL")⟩

/-- The answer to a line that is not understood. -/
def SaslServer.error (sasl : SaslServer) : SaslAnswer := ⟨sasl, .success, some (lit "ERROR")⟩

/-- The answer to a violation of the protocol. -/
def SaslServer.violation (sasl : SaslServer) : SaslAnswer := ⟨sasl, .protocolViolation, none⟩

/-- `sasl_server_handle_data`. -/
def saslServerHandleData (sasl : SaslServer) (input : Bytes) : SaslAnswer :=
  let failed := !input.isEmpty && input != saslIdentity sasl.uid
  if failed then sasl.reject else ⟨{ sasl with state := .authenticated }, .success, some sasl.okResponse⟩

/-- `sasl_server_handle_auth`. -/
def saslServerHandleAuth (sasl : SaslServer) (input : Bytes) : SaslAnswer :=
  let (protocol, arg) := saslSplit input
  if protocol = lit "EXTERNAL" then
    if arg ≠ [] then saslServerHandleData sasl arg
    else ⟨{ sasl with state := .challenge }, .success, some (lit "DATA")⟩
  else sasl.reject

/-- `SASL_SERVER_STATE_AUTH` in `sasl_server_dispatch`. -/
def saslServerDispatchAuth (sasl : SaslServer) (cmd arg : Bytes) : SaslAnswer :=
  if cmd = lit "AUTH" then saslServerHandleAuth sasl arg
  else if cmd = lit "ERROR" then sasl.reject
  else if cmd = lit "BEGIN" ∧ arg = [] then sasl.violation
  else sasl.error

/-- `SASL_SERVER_STATE_CHALLENGE` in `sasl_server_dispatch`. -/
def saslServerDispatchChallenge (sasl : SaslServer) (cmd arg : Bytes) : SaslAnswer :=
  if cmd = lit "DATA" then saslServerHandleData sasl arg
  else if cmd = lit "ERROR" ∨ (cmd = lit "CANCEL" ∧ arg = []) then sasl.reject
  else if cmd = lit "BEGIN" ∧ arg = [] then sasl.violation
  else sasl.error

/-- `SASL_SERVER_STATE_AUTHENTICATED` and `SASL_SERVER_STATE_NEGOTIATED_FDS` in `sasl_server_dispatch`. -/
def saslServerDispatchAuthenticated (sasl : SaslServer) (cmd arg : Bytes) : SaslAnswer :=
  if cmd = lit "NEGOTIATE_UNIX_FD" ∧ arg = [] then
    ⟨{ sasl with fdsAllowed := true, state := .negotiatedFds }, .success, some (lit "AGREE_UNIX_FD")⟩
  else if cmd = lit "BEGIN" ∧ arg = [] then ⟨{ sasl with state := .done }, .success, none⟩
  else if cmd = lit "ERROR" ∨ (cmd = lit "CANCEL" ∧ arg = []) then { sasl with fdsAllowed := false }.reject
  else sasl.error

/-- `sasl_server_dispatch`. The first line starts with a zero byte. -/
def saslServerDispatch (sasl : SaslServer) (input : Bytes) : SaslAnswer :=
  let (cmd, arg) := saslSplit input
  match sasl.state with
  | .init =>
    match cmd with
    | [] => sasl.violation
    | c :: cmd => if c ≠ 0 then sasl.violation else saslServerDispatchAuth sasl cmd arg
  | .auth => saslServerDispatchAuth sasl cmd arg
  | .challenge => saslServerDispatchChallenge sasl cmd arg
  | .authenticated | .negotiatedFds => saslServerDispatchAuthenticated sasl cmd arg
  | .done => ⟨sasl, .notRecoverable, none⟩

/-- The server after one line. -/
def SaslServer.step (sasl : SaslServer) (line : Bytes) : SaslServer := (saslServerDispatch sasl line).server

/-- The lines of a run, each with its answer. -/
def SaslServer.transcript : SaslServer → List Bytes → List (Bytes × SaslAnswer)
  | _, [] => []
  | sasl, line :: lines => (line, saslServerDispatch sasl line) :: transcript (sasl.step line) lines

/-- A `BEGIN`. -/
def SaslBegins (line : Bytes) : Prop := saslSplit line = (lit "BEGIN", [])
  deriving Decidable

/-- An `ERROR`, or a `CANCEL` without an argument. -/
def SaslRevokes (line : Bytes) : Prop :=
  (saslSplit line).1 = lit "ERROR" ∨ ((saslSplit line).1 = lit "CANCEL" ∧ (saslSplit line).2 = [])
  deriving Decidable

/-- A `NEGOTIATE_UNIX_FD`. -/
def SaslNegotiates (line : Bytes) : Prop := saslSplit line = (lit "NEGOTIATE_UNIX_FD", [])
  deriving Decidable

/-- A request for `EXTERNAL` with an identity; the first line of all starts with a zero byte. -/
def AsksExternal (state : SaslServerState) (line identity : Bytes) : Prop :=
  (saslSplit line).1 = (if state = .init then 0 :: lit "AUTH" else lit "AUTH") ∧
    saslSplit (saslSplit line).2 = (lit "EXTERNAL", identity)

/-- The lines of one successful authentication: the identity comes with the request, or behind a
challenge that nothing revokes. -/
inductive Authenticates (uid : UInt32) (state : SaslServerState) : List Bytes → Prop
  | direct (line : Bytes) (h : AsksExternal state line (saslIdentity uid)) : Authenticates uid state [line]
  | challenged (line data identity : Bytes) (noise : List Bytes) (h : AsksExternal state line [])
      (hnoise : ∀ l ∈ noise, ¬SaslRevokes l ∧ (saslSplit l).1 ≠ lit "DATA")
      (hdata : saslSplit data = (lit "DATA", identity)) (hidentity : identity = [] ∨ identity = saslIdentity uid) :
      Authenticates uid state (line :: noise ++ [data])

/-- No authentication is under way. -/
def SaslServerState.Idle (state : SaslServerState) : Prop := state = .init ∨ state = .auth

/-- The user is authenticated. -/
def SaslServerState.Granted (state : SaslServerState) : Prop := state = .authenticated ∨ state = .negotiatedFds

variable {sasl : SaslServer} {line : Bytes}

/-- The data of a challenge authenticates the user exactly when it is empty or the identity. -/
theorem saslServerHandleData_server (sasl : SaslServer) (input : Bytes) :
    (saslServerHandleData sasl input).server =
      if input = [] ∨ input = saslIdentity sasl.uid then { sasl with state := .authenticated }
      else { sasl with state := .auth } := by
  cases input with
  | nil => rfl
  | cons c rest =>
    by_cases h : c :: rest = saslIdentity sasl.uid
    · simp [saslServerHandleData, h]
    · simp [saslServerHandleData, h, SaslServer.reject]

/-- An identity is never empty. -/
theorem saslIdentity_ne_nil (uid : UInt32) : saslIdentity uid ≠ [] := by
  have hdigits : Nat.toDigits 10 uid.toNat ≠ [] := Nat.toDigits_ne_nil
  obtain ⟨c, rest, h⟩ := List.exists_cons_of_ne_nil hdigits
  simp [saslIdentity, stringToHex, lit, h]

/-- A request is challenged without an identity, and granted with the right one. -/
theorem saslServerHandleAuth_server (sasl : SaslServer) (arg : Bytes) :
    (saslServerHandleAuth sasl arg).server =
      if saslSplit arg = (lit "EXTERNAL", []) then { sasl with state := .challenge }
      else if saslSplit arg = (lit "EXTERNAL", saslIdentity sasl.uid) then { sasl with state := .authenticated }
      else { sasl with state := .auth } := by
  unfold saslServerHandleAuth
  obtain ⟨protocol, identity⟩ := saslSplit arg
  by_cases hprotocol : protocol = lit "EXTERNAL"
  · by_cases hidentity : identity = []
    · simp [hprotocol, hidentity]
    · simp [hprotocol, hidentity, saslServerHandleData_server]
  · simp [hprotocol, SaslServer.reject]

/-- The commands of a server that waits for an authentication. -/
theorem saslServerDispatchAuth_server (sasl : SaslServer) (cmd arg : Bytes) :
    (saslServerDispatchAuth sasl cmd arg).server =
      if cmd = lit "AUTH" then (saslServerHandleAuth sasl arg).server
      else if cmd = lit "ERROR" then { sasl with state := .auth } else sasl := by
  unfold saslServerDispatchAuth
  split_ifs <;> rfl

/-- While no authentication is under way, a request for `EXTERNAL` is challenged or granted, and
every other line leaves it at that. -/
theorem SaslServer.step_idle (h : sasl.state.Idle) (line : Bytes) :
    (AsksExternal sasl.state line [] ∧ sasl.step line = { sasl with state := .challenge }) ∨
    (AsksExternal sasl.state line (saslIdentity sasl.uid) ∧ sasl.step line = { sasl with state := .authenticated }) ∨
    (¬AsksExternal sasl.state line [] ∧ ¬AsksExternal sasl.state line (saslIdentity sasl.uid) ∧
      ∃ state : SaslServerState, state.Idle ∧ sasl.step line = { sasl with state := state }) := by
  -- The command as it is read, behind the zero byte of the first line.
  obtain ⟨cmd, hasks, hstep⟩ : ∃ cmd : Bytes,
      (∀ identity, AsksExternal sasl.state line identity ↔
        cmd = lit "AUTH" ∧ saslSplit (saslSplit line).2 = (lit "EXTERNAL", identity)) ∧
      (sasl.step line = sasl ∧ cmd = [] ∨
        sasl.step line = (saslServerDispatchAuth sasl cmd (saslSplit line).2).server) := by
    rcases h with h | h
    · cases hcmd : (saslSplit line).1 with
      | nil => exact ⟨[], by simp [AsksExternal, h, hcmd, lit], .inl ⟨by
          simp [SaslServer.step, saslServerDispatch, h, hcmd, SaslServer.violation], rfl⟩⟩
      | cons c cmd =>
        by_cases hc : c = 0
        · exact ⟨cmd, by simp [AsksExternal, h, hcmd, hc], .inr (by
            simp [SaslServer.step, saslServerDispatch, h, hcmd, hc])⟩
        · exact ⟨[], by simp [AsksExternal, h, hcmd, hc, lit], .inl ⟨by
            simp [SaslServer.step, saslServerDispatch, h, hcmd, hc, SaslServer.violation], rfl⟩⟩
    · exact ⟨(saslSplit line).1, by simp [AsksExternal, h], .inr (by
        simp [SaslServer.step, saslServerDispatch, h])⟩
  rw [hasks, hasks]
  rcases hstep with ⟨hstep, rfl⟩ | hstep
  · exact .inr (.inr ⟨by simp [lit], by simp [lit], sasl.state, h, hstep⟩)
  · rw [saslServerDispatchAuth_server, saslServerHandleAuth_server] at hstep
    by_cases hcmd : cmd = lit "AUTH"
    · rw [if_pos hcmd] at hstep
      by_cases hempty : saslSplit (saslSplit line).2 = (lit "EXTERNAL", [])
      · exact .inl ⟨⟨hcmd, hempty⟩, by rw [hstep, if_pos hempty]⟩
      by_cases hidentity : saslSplit (saslSplit line).2 = (lit "EXTERNAL", saslIdentity sasl.uid)
      · exact .inr (.inl ⟨⟨hcmd, hidentity⟩, by rw [hstep, if_neg hempty, if_pos hidentity]⟩)
      exact .inr (.inr ⟨fun h => hempty h.2, fun h => hidentity h.2, .auth, .inr rfl, by
        rw [hstep, if_neg hempty, if_neg hidentity]⟩)
    · rw [if_neg hcmd] at hstep
      refine .inr (.inr ⟨fun h => hcmd h.1, fun h => hcmd h.1, ?_⟩)
      by_cases herror : cmd = lit "ERROR"
      · exact ⟨.auth, .inr rfl, by rw [hstep, if_pos herror]⟩
      · exact ⟨sasl.state, h, by rw [hstep, if_neg herror]⟩

/-- While a challenge is out, only its data grants the authentication, and only what revokes it or the
wrong data ends the challenge otherwise. -/
theorem SaslServer.step_challenge (h : sasl.state = .challenge) (line : Bytes) :
    sasl.step line =
      if (saslSplit line).1 = lit "DATA" then
        if (saslSplit line).2 = [] ∨ (saslSplit line).2 = saslIdentity sasl.uid then
          { sasl with state := .authenticated }
        else { sasl with state := .auth }
      else if SaslRevokes line then { sasl with state := .auth }
      else sasl := by
  have hstep : sasl.step line = (saslServerDispatchChallenge sasl (saslSplit line).1 (saslSplit line).2).server := by
    simp [SaslServer.step, saslServerDispatch, h]
  rw [hstep, ← saslServerHandleData_server, saslServerDispatchChallenge]
  by_cases hdata : (saslSplit line).1 = lit "DATA"
  · rw [if_pos hdata, if_pos hdata]
  by_cases hrevokes : SaslRevokes line
  · rw [if_neg hdata, if_neg hdata, if_pos hrevokes]
    exact congrArg SaslAnswer.server (if_pos hrevokes)
  · rw [if_neg hdata, if_neg hdata, if_neg hrevokes]
    refine (congrArg SaslAnswer.server (if_neg hrevokes)).trans ?_
    split_ifs <;> rfl

/-- The answers of a server that granted the authentication. -/
theorem saslServerDispatch_granted (h : sasl.state.Granted) (line : Bytes) :
    saslServerDispatch sasl line =
      if SaslNegotiates line then
        ⟨{ sasl with fdsAllowed := true, state := .negotiatedFds }, .success, some (lit "AGREE_UNIX_FD")⟩
      else if SaslBegins line then ⟨{ sasl with state := .done }, .success, none⟩
      else if SaslRevokes line then { sasl with fdsAllowed := false }.reject
      else ⟨sasl, .success, some (lit "ERROR")⟩ := by
  have hdispatch : saslServerDispatch sasl line =
      saslServerDispatchAuthenticated sasl (saslSplit line).1 (saslSplit line).2 := by
    rcases h with h | h <;> simp [saslServerDispatch, h]
  have hnegotiates : SaslNegotiates line ↔
      (saslSplit line).1 = lit "NEGOTIATE_UNIX_FD" ∧ (saslSplit line).2 = [] := Prod.ext_iff
  have hbegins : SaslBegins line ↔ (saslSplit line).1 = lit "BEGIN" ∧ (saslSplit line).2 = [] := Prod.ext_iff
  rw [hdispatch, saslServerDispatchAuthenticated, ← if_congr hnegotiates rfl (if_congr hbegins rfl rfl)]
  rfl

/-- A finished server takes no more lines. -/
theorem SaslServer.step_done (h : sasl.state = .done) (line : Bytes) : sasl.step line = sasl := by
  simp [SaslServer.step, saslServerDispatch, h]

/-- What is true of a server after any lines: it knows its user, and it allows no descriptors before
the authentication. -/
structure SaslServer.Sound (uid : UInt32) (sasl : SaslServer) : Prop where
  uid : sasl.uid = uid
  fds : sasl.state.Idle ∨ sasl.state = .challenge → sasl.fdsAllowed = false

/-- A line keeps what is true of a server. -/
theorem SaslServer.Sound.step {uid : UInt32} (h : sasl.Sound uid) (line : Bytes) : (sasl.step line).Sound uid := by
  obtain ⟨huid, hfds⟩ := h
  cases hstate : sasl.state with
  | init =>
    have hidle : sasl.state.Idle := .inl hstate
    have hnone := hfds (.inl hidle)
    rcases step_idle hidle line with ⟨-, h⟩ | ⟨-, h⟩ | ⟨-, -, state, -, h⟩ <;> rw [h] <;> exact ⟨huid, fun _ => hnone⟩
  | auth =>
    have hidle : sasl.state.Idle := .inr hstate
    have hnone := hfds (.inl hidle)
    rcases step_idle hidle line with ⟨-, h⟩ | ⟨-, h⟩ | ⟨-, -, state, -, h⟩ <;> rw [h] <;> exact ⟨huid, fun _ => hnone⟩
  | challenge =>
    have hnone := hfds (.inr hstate)
    rw [step_challenge hstate]
    split_ifs <;> exact ⟨huid, fun _ => hnone⟩
  | authenticated =>
    rw [SaslServer.step, saslServerDispatch_granted (.inl hstate)]
    split_ifs
    · exact ⟨huid, by simp [SaslServerState.Idle]⟩
    · exact ⟨huid, by simp [SaslServerState.Idle]⟩
    · exact ⟨huid, fun _ => rfl⟩
    · exact ⟨huid, hfds⟩
  | negotiatedFds =>
    rw [SaslServer.step, saslServerDispatch_granted (.inr hstate)]
    split_ifs
    · exact ⟨huid, by simp [SaslServerState.Idle]⟩
    · exact ⟨huid, by simp [SaslServerState.Idle]⟩
    · exact ⟨huid, fun _ => rfl⟩
    · exact ⟨huid, hfds⟩
  | done =>
    rw [step_done hstate]
    exact ⟨huid, hfds⟩

open Machine

/-- What is true of a server stays true over any lines. -/
theorem SaslServer.Sound.run {uid : UInt32} (h : sasl.Sound uid) (lines : List Bytes) :
    (run SaslServer.step sasl lines).Sound uid :=
  run_invariant (P := fun _ _ => True) (fun _ line h _ => h.step line) h (along_true sasl lines)

/-- A new server is sound. -/
theorem sound_saslServerInit (uid : UInt32) (guid : Bytes) : (saslServerInit uid guid).Sound uid := ⟨rfl, fun _ => rfl⟩

/-- What has to come before `BEGIN`: an authentication, and lines that neither revoke it nor begin. -/
structure SaslLogin (sasl : SaslServer) (pre exchange mid : List Bytes) (last : Bytes) : Prop where
  idle : (run SaslServer.step sasl pre).state.Idle
  exchange : Authenticates sasl.uid (run SaslServer.step sasl pre).state exchange
  mid : ∀ line ∈ mid, ¬SaslRevokes line ∧ ¬SaslBegins line
  last : SaslBegins last

/-- An outstanding challenge survives all lines but its data and what revokes it. -/
theorem run_noise (h : sasl.state = .challenge) {noise : List Bytes}
    (hnoise : ∀ l ∈ noise, ¬SaslRevokes l ∧ (saslSplit l).1 ≠ lit "DATA") :
    run SaslServer.step sasl noise = sasl := by
  induction noise with
  | nil => rfl
  | cons line rest ih =>
    obtain ⟨hrevokes, hdata⟩ := hnoise line List.mem_cons_self
    rw [run_cons, SaslServer.step_challenge h, if_neg hdata, if_neg hrevokes]
    exact ih fun l hl => hnoise l (List.mem_cons_of_mem _ hl)

/-- The lines of an authentication authenticate the user. -/
theorem Authenticates.grants {exchange : List Bytes} (h : sasl.state.Idle)
    (hexchange : Authenticates sasl.uid sasl.state exchange) :
    run SaslServer.step sasl exchange = { sasl with state := .authenticated } := by
  cases hexchange with
  | direct line hasks =>
    rcases SaslServer.step_idle h line with ⟨hempty, -⟩ | ⟨-, hstep⟩ | ⟨-, hnot, -⟩
    · exact absurd (congrArg Prod.snd (hasks.2.symm.trans hempty.2)) (saslIdentity_ne_nil _)
    · exact hstep
    · exact absurd hasks hnot
  | challenged line data identity noise hasks hnoise hdata hidentity =>
    have hstep : sasl.step line = { sasl with state := .challenge } := by
      rcases SaslServer.step_idle h line with ⟨-, hstep⟩ | ⟨hid, -⟩ | ⟨hnot, -⟩
      · exact hstep
      · exact absurd (congrArg Prod.snd (hid.2.symm.trans hasks.2)) (saslIdentity_ne_nil _)
      · exact absurd hasks hnot
    rw [List.cons_append, run_cons, run_append, hstep, run_noise rfl hnoise, run_cons, run_nil,
      SaslServer.step_challenge rfl, hdata, if_pos rfl, if_pos hidentity]

/-- Without `BEGIN` and what revokes it the authentication lasts, and descriptors are allowed once a
negotiation was agreed to. -/
theorem run_granted (h : sasl.state.Granted) {mid : List Bytes}
    (hmid : ∀ line ∈ mid, ¬SaslRevokes line ∧ ¬SaslBegins line) :
    (run SaslServer.step sasl mid).state.Granted ∧
      ((run SaslServer.step sasl mid).fdsAllowed = true ↔ sasl.fdsAllowed = true ∨
        ∃ entry ∈ sasl.transcript mid, SaslNegotiates entry.1 ∧ entry.2.output = some (lit "AGREE_UNIX_FD")) := by
  induction mid generalizing sasl with
  | nil => simpa [SaslServer.transcript] using h
  | cons line rest ih =>
    obtain ⟨hrevokes, hbegins⟩ := hmid line List.mem_cons_self
    have hrest := fun l hl => hmid l (List.mem_cons_of_mem line hl)
    have hanswer := saslServerDispatch_granted h line
    rw [if_neg hbegins, if_neg hrevokes] at hanswer
    rw [run_cons, SaslServer.transcript]
    by_cases hnegotiates : SaslNegotiates line
    · rw [if_pos hnegotiates] at hanswer
      have hstep : sasl.step line = { sasl with fdsAllowed := true, state := .negotiatedFds } :=
        congrArg SaslAnswer.server hanswer
      obtain ⟨hstate, hfds⟩ := @ih (sasl.step line) (by rw [hstep]; exact .inr rfl) hrest
      refine ⟨hstate, iff_of_true (hfds.2 (.inl (by rw [hstep]))) (.inr ⟨_, List.mem_cons_self, hnegotiates, ?_⟩)⟩
      rw [hanswer]
    · rw [if_neg hnegotiates] at hanswer
      have hstep : sasl.step line = sasl := congrArg SaslAnswer.server hanswer
      rw [hstep, hanswer]
      obtain ⟨hstate, hfds⟩ := ih h hrest
      refine ⟨hstate, hfds.trans (or_congr_right ?_)⟩
      simp [hnegotiates]

/-- A finished server stays as it is. -/
theorem run_done (h : sasl.state = .done) (lines : List Bytes) : run SaslServer.step sasl lines = sasl := by
  induction lines with
  | nil => rfl
  | cons line rest ih => rw [run_cons, SaslServer.step_done h, ih]

/-- After the lines of a login the server is done, and descriptors are allowed once a negotiation was
agreed to since the authentication. -/
theorem SaslLogin.finishes {uid : UInt32} {pre exchange mid : List Bytes} {last : Bytes}
    (h : SaslLogin sasl pre exchange mid last) (hsound : sasl.Sound uid) (post : List Bytes) :
    (run SaslServer.step sasl (pre ++ exchange ++ mid ++ last :: post)).state = .done ∧
      ((run SaslServer.step sasl (pre ++ exchange ++ mid ++ last :: post)).fdsAllowed = true ↔
        ∃ entry ∈ (run SaslServer.step sasl (pre ++ exchange)).transcript mid,
          SaslNegotiates entry.1 ∧ entry.2.output = some (lit "AGREE_UNIX_FD")) := by
  have huid : (run SaslServer.step sasl pre).uid = sasl.uid := (hsound.run pre).uid.trans hsound.uid.symm
  have hgrants : run SaslServer.step sasl (pre ++ exchange) =
      { run SaslServer.step sasl pre with state := .authenticated } := by
    rw [run_append, Authenticates.grants h.idle (huid ▸ h.exchange)]
  have hnone : (run SaslServer.step sasl (pre ++ exchange)).fdsAllowed = false := by
    rw [hgrants]
    exact (hsound.run pre).fds (.inl h.idle)
  have hgranted : (run SaslServer.step sasl (pre ++ exchange)).state.Granted := by
    rw [hgrants]
    exact .inl rfl
  obtain ⟨hstate, hfds⟩ := run_granted hgranted h.mid
  have hbegin := saslServerDispatch_granted hstate last
  have hnot : ¬SaslNegotiates last := fun hnegotiates =>
    absurd (congrArg Prod.fst (hnegotiates.symm.trans h.last)) (by decide)
  rw [if_neg hnot, if_pos h.last] at hbegin
  have hstep := congrArg SaslAnswer.server hbegin
  rw [run_append, run_append, run_cons, show SaslServer.step _ last = _ from hstep, run_done rfl]
  exact ⟨rfl, by simpa [hnone] using hfds⟩

/-- How a server got where it is: which of the lines so far put it there. -/
def SaslServer.History (sasl : SaslServer) (lines : List Bytes) : SaslServerState → Prop
  | .init | .auth => True
  | .challenge => ∃ (pre : List Bytes) (line : Bytes) (noise : List Bytes), lines = pre ++ line :: noise ∧
      (run SaslServer.step sasl pre).state.Idle ∧ AsksExternal (run SaslServer.step sasl pre).state line [] ∧
      ∀ l ∈ noise, ¬SaslRevokes l ∧ (saslSplit l).1 ≠ lit "DATA"
  | .authenticated | .negotiatedFds => ∃ pre exchange mid : List Bytes, lines = pre ++ exchange ++ mid ∧
      (run SaslServer.step sasl pre).state.Idle ∧
      Authenticates sasl.uid (run SaslServer.step sasl pre).state exchange ∧
      ∀ line ∈ mid, ¬SaslRevokes line ∧ ¬SaslBegins line
  | .done => ∃ (pre exchange mid : List Bytes) (last : Bytes) (post : List Bytes),
      lines = pre ++ exchange ++ mid ++ last :: post ∧ SaslLogin sasl pre exchange mid last

/-- A property of the members of a list and of one more is one of all members. -/
theorem forall_mem_concat {P : Bytes → Prop} {ls : List Bytes} (h : ∀ l ∈ ls, P l) {line : Bytes} (hline : P line) :
    ∀ l ∈ ls ++ [line], P l := by
  intro l hl
  rcases List.mem_append.mp hl with hl | hl
  · exact h l hl
  · exact (List.mem_singleton.mp hl) ▸ hline

/-- A line that a server with an authenticated user is given. -/
theorem SaslServer.History.granted {lines : List Bytes} {server : SaslServer} (hstate : server.state.Granted)
    (h : sasl.History lines .authenticated) (line : Bytes) :
    sasl.History (lines ++ [line]) (server.step line).state := by
  obtain ⟨pre, exchange, mid, rfl, hidle, hexchange, hmid⟩ := h
  rw [SaslServer.step, saslServerDispatch_granted hstate]
  split_ifs with hnegotiates hbegins hrevokes
  · have hrevokes : ¬SaslRevokes line := by rw [SaslRevokes, hnegotiates]; decide
    have hbegins : ¬SaslBegins line := by rw [SaslBegins, hnegotiates]; decide
    exact ⟨pre, exchange, mid ++ [line], by simp, hidle, hexchange, forall_mem_concat hmid ⟨hrevokes, hbegins⟩⟩
  · exact ⟨pre, exchange, mid, line, [], rfl, hidle, hexchange, hmid, hbegins⟩
  · trivial
  · rcases hstate with hstate | hstate <;> rw [hstate] <;>
      exact ⟨pre, exchange, mid ++ [line], by simp, hidle, hexchange, forall_mem_concat hmid ⟨hrevokes, hbegins⟩⟩

/-- A line that a server with an outstanding challenge is given. -/
theorem SaslServer.History.challenge {lines : List Bytes} {server : SaslServer} (hstate : server.state = .challenge)
    (huid : server.uid = sasl.uid) (h : sasl.History lines .challenge) (line : Bytes) :
    sasl.History (lines ++ [line]) (server.step line).state := by
  obtain ⟨pre, request, noise, rfl, hidle, hasks, hnoise⟩ := h
  rw [SaslServer.step_challenge hstate, huid]
  split_ifs with hdata hidentity hrevokes
  · refine ⟨pre, request :: noise ++ [line], [], by simp, hidle, ?_, by simp⟩
    exact .challenged request line (saslSplit line).2 noise hasks hnoise (Prod.ext hdata rfl) hidentity
  · trivial
  · trivial
  · rw [hstate]
    exact ⟨pre, request, noise ++ [line], by simp, hidle, hasks, forall_mem_concat hnoise ⟨hrevokes, hdata⟩⟩

/-- Every server that did not start authenticated got where it is by the lines it was given. -/
theorem SaslServer.history {uid : UInt32} (hsound : sasl.Sound uid) (hidle : sasl.state.Idle) (lines : List Bytes) :
    sasl.History lines (run SaslServer.step sasl lines).state := by
  induction lines using List.reverseRecOn with
  | nil => rcases hidle with h | h <;> simp [h, SaslServer.History]
  | append_singleton lines line ih =>
    have huid : (run SaslServer.step sasl lines).uid = sasl.uid := (hsound.run lines).uid.trans hsound.uid.symm
    have hnow : run SaslServer.step sasl (lines ++ [line]) = (run SaslServer.step sasl lines).step line := by
      rw [run_append, run_cons, run_nil]
    rw [hnow]
    have hwaiting (h : (run SaslServer.step sasl lines).state.Idle) :
        sasl.History (lines ++ [line]) ((run SaslServer.step sasl lines).step line).state := by
      rcases SaslServer.step_idle h line with ⟨hasks, hstep⟩ | ⟨hasks, hstep⟩ | ⟨-, -, state, hstate, hstep⟩
      · rw [hstep]
        exact ⟨lines, line, [], rfl, h, hasks, by simp⟩
      · rw [hstep]
        exact ⟨lines, [line], [], by simp, h, .direct line (huid ▸ hasks), by simp⟩
      · rw [hstep]
        rcases hstate with rfl | rfl <;> trivial
    cases hstate : (run SaslServer.step sasl lines).state with
    | init => exact hwaiting (.inl hstate)
    | auth => exact hwaiting (.inr hstate)
    | challenge => exact .challenge hstate huid (hstate ▸ ih) line
    | authenticated => exact .granted (.inl hstate) (hstate ▸ ih) line
    | negotiatedFds => exact .granted (.inr hstate) (show sasl.History lines .negotiatedFds from hstate ▸ ih) line
    | done =>
      rw [hstate] at ih
      obtain ⟨pre, exchange, mid, last, post, rfl, hlogin⟩ := ih
      rw [SaslServer.step_done hstate, hstate]
      exact ⟨pre, exchange, mid, last, post ++ [line], by simp, hlogin⟩

/-- The server is done exactly when the lines contain a login: an authentication of the user of the
socket that no later line revoked before `BEGIN`. Descriptors are then allowed exactly when a
negotiation was agreed to behind that authentication. Until it begins or is revoked, an
authenticated server answers everything but a negotiation with an error and stays as it is. -/
theorem SaslServer.run_done_iff_login (uid : UInt32) (guid : Bytes) (lines : List Bytes) :
    ((run SaslServer.step (saslServerInit uid guid) lines).state = .done ↔
      ∃ (pre exchange mid : List Bytes) (last : Bytes) (post : List Bytes),
        lines = pre ++ exchange ++ mid ++ last :: post ∧
          SaslLogin (saslServerInit uid guid) pre exchange mid last) ∧
    (∀ (pre exchange mid : List Bytes) (last : Bytes) (post : List Bytes),
      lines = pre ++ exchange ++ mid ++ last :: post →
      SaslLogin (saslServerInit uid guid) pre exchange mid last →
      ((run SaslServer.step (saslServerInit uid guid) lines).fdsAllowed = true ↔
        ∃ entry ∈ (run SaslServer.step (saslServerInit uid guid) (pre ++ exchange)).transcript mid,
          SaslNegotiates entry.1 ∧ entry.2.output = some (lit "AGREE_UNIX_FD"))) ∧
    (∀ (sasl : SaslServer) (line : Bytes), sasl.state.Granted →
      (saslSplit line).1 = lit "AUTH" ∨ ¬SaslNegotiates line ∧ ¬SaslBegins line ∧ ¬SaslRevokes line →
      saslServerDispatch sasl line = ⟨sasl, .success, some (lit "ERROR")⟩) := by
  have hsound := sound_saslServerInit uid guid
  refine ⟨⟨fun hdone => ?_, ?_⟩, ?_, ?_⟩
  · have h := SaslServer.history hsound (.inl rfl) lines
    rwa [hdone] at h
  · rintro ⟨pre, exchange, mid, last, post, rfl, hlogin⟩
    exact (hlogin.finishes hsound post).1
  · rintro pre exchange mid last post rfl hlogin
    exact (hlogin.finishes hsound post).2
  · intro sasl line hgranted hother
    obtain ⟨hnegotiates, hbegins, hrevokes⟩ : ¬SaslNegotiates line ∧ ¬SaslBegins line ∧ ¬SaslRevokes line := by
      rcases hother with hauth | hother
      · simp [SaslNegotiates, SaslBegins, SaslRevokes, Prod.ext_iff, hauth, lit, byte]
      · exact hother
    rw [saslServerDispatch_granted hgranted, if_neg hnegotiates, if_neg hbegins, if_neg hrevokes]

/-- The lines that a client may send at once: it is authenticated by the socket and may pass descriptors. -/
theorem run_pipelined :
    let server := run SaslServer.step (saslServerInit 1000 [])
      [0 :: lit "AUTH EXTERNAL", lit "DATA", lit "NEGOTIATE_UNIX_FD", lit "BEGIN"]
    server.state = .done ∧ server.fdsAllowed = true := by
  have hlogin : SaslLogin (saslServerInit 1000 []) [] [0 :: lit "AUTH EXTERNAL", lit "DATA"]
      [lit "NEGOTIATE_UNIX_FD"] (lit "BEGIN") :=
    ⟨.inl rfl, .challenged (0 :: lit "AUTH EXTERNAL") (lit "DATA") [] [] ⟨by decide, by decide⟩ (by simp)
      (by decide) (.inl rfl), by decide, by decide⟩
  obtain ⟨hdone, hfds, -⟩ := SaslServer.run_done_iff_login 1000 []
    [0 :: lit "AUTH EXTERNAL", lit "DATA", lit "NEGOTIATE_UNIX_FD", lit "BEGIN"]
  exact ⟨hdone.2 ⟨_, _, _, _, [], rfl, hlogin⟩,
    (hfds _ _ _ _ [] rfl hlogin).2 ⟨_, List.mem_cons_self, by decide, by decide⟩⟩

/-- A revoked authentication takes the agreement on descriptors with it. -/
example :
    let server := run SaslServer.step (saslServerInit 1000 [])
      [0 :: lit "AUTH EXTERNAL 31303030", lit "NEGOTIATE_UNIX_FD", lit "CANCEL", lit "AUTH EXTERNAL 31303030",
        lit "BEGIN"]
    server.state = .done ∧ server.fdsAllowed = false := by decide

end DbusBroker
