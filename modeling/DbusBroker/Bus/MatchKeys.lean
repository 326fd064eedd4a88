import DbusBroker.Dbus.Message

/-!
# Match keys

The keys of a match rule, their parser and the test against a message, from `bus/match.c`.
The arrays `args` and `argpaths` are lists as long as `n_args` and `n_argpaths`; a slot
behind them is `NULL`.

A value of `MatchKeys` carries what the parser checked: every key is valid, and the sender
id is the one of the sender string.
-/

namespace DbusBroker

open Std

/-- The errors of the match functions. -/
inductive MatchError where
  | eof
  | invalid
  | quota
  deriving DecidableEq, Repr

/-- `MatchFilter`; a `sender` of `ADDRESS_ID_INVALID` is `none`. -/
@[ext] structure MatchFilter where
  type : UInt8
  sender : Option ℕ
  interface : Option Bytes
  member : Option Bytes
  path : Option Bytes
  args : List (Option Bytes)
  argpaths : List (Option Bytes)
  deriving DecidableEq

/-- `MatchKeys`, with what is known of accepted keys. -/
@[ext] structure MatchKeys where
  filter : MatchFilter
  destination : Option Bytes
  sender : Option Bytes
  pathNamespace : Option Bytes
  arg0namespace : Option Bytes
  senderId : filter.sender = sender.bind addressId
  senderValid : ∀ s ∈ sender, dbusValidateName s
  destinationValid : ∀ s ∈ destination, dbusValidateName s
  interfaceValid : ∀ s ∈ filter.interface, dbusValidateInterface s
  memberValid : ∀ s ∈ filter.member, dbusValidateMember s
  pathValid : ∀ s ∈ filter.path, cDvarIsPath s
  pathNamespaceValid : ∀ s ∈ pathNamespace, cDvarIsPath s
  arg0namespaceValid : ∀ s ∈ arg0namespace, dbusValidateNamespace s
  deriving DecidableEq

/-- `MATCH_KEYS_NULL`. -/
def matchKeysNull : MatchKeys where
  filter := ⟨dbusMessageTypeInvalid, none, none, none, none, [], []⟩
  destination := none
  sender := none
  pathNamespace := none
  arg0namespace := none
  senderId := rfl
  senderValid := nofun
  destinationValid := nofun
  interfaceValid := nofun
  memberValid := nofun
  pathValid := nofun
  pathNamespaceValid := nofun
  arg0namespaceValid := nofun

/-- An array slot, `NULL` behind the used part. -/
def argAt (args : List (Option Bytes)) (i : ℕ) : Option Bytes := (args[i]?).join

/-- Write an array slot and extend the used part up to it. -/
def argSet (args : List (Option Bytes)) (i : ℕ) (value : Bytes) : List (Option Bytes) :=
  (args ++ List.replicate (i + 1 - args.length) none).set i (some value)

/-- The message type a `type` key names. -/
def matchType (value : Bytes) : Option UInt8 :=
  if value = lit "signal" then some dbusMessageTypeSignal
  else if value = lit "method_call" then some dbusMessageTypeMethodCall
  else if value = lit "method_return" then some dbusMessageTypeMethodReturn
  else if value = lit "error" then some dbusMessageTypeError
  else none

/-- Read at most `n` decimal digits of an `argN` key. -/
def argIndex : ℕ → Bytes → ℕ → ℕ × Bytes
  | n + 1, c :: key, i => if isDigit c then argIndex n key (i * 10 + (c - byte '0').toNat) else (i, c :: key)
  | _, key, i => (i, key)

/-- The branch of `match_keys_assign` for keys that start with `arg`; `key` is what follows. -/
def matchKeysAssignArg (keys : MatchKeys) (key value : Bytes) : Except MatchError MatchKeys :=
  let (i, key) := argIndex 2 key 0
  if i = 0 && keys.arg0namespace.isSome then .error .invalid
  else if 63 < i then .error .invalid
  else if (argAt keys.filter.args i).isSome || (argAt keys.filter.argpaths i).isSome then .error .invalid
  else if key = [] then
    .ok { keys with filter := { keys.filter with args := argSet keys.filter.args i value } }
  else if key = lit "path" then
    .ok { keys with filter := { keys.filter with argpaths := argSet keys.filter.argpaths i value } }
  else .error .invalid

/-- `match_keys_assign`: check a key and its value, and record it unless it was given before. -/
def matchKeysAssign (keys : MatchKeys) (key value : Bytes) (allowEavesdrop : Bool) :
    Except MatchError MatchKeys :=
  if key = lit "type" then
    if keys.filter.type != dbusMessageTypeInvalid then .error .invalid
    else match matchType value with
      | some type => .ok { keys with filter := { keys.filter with type := type } }
      | none => .error .invalid
  else if key = lit "sender" then
    if keys.sender.isSome then .error .invalid
    else if h : dbusValidateName value then
      .ok { keys with
        filter := { keys.filter with sender := addressId value }
        sender := some value
        senderId := rfl
        senderValid := fun _ hs => Option.some.inj hs ▸ h }
    else .error .invalid
  else if key = lit "destination" then
    if keys.destination.isSome then .error .invalid
    else if h : dbusValidateName value then
      .ok { keys with destination := some value, destinationValid := fun _ hs => Option.some.inj hs ▸ h }
    else .error .invalid
  else if key = lit "interface" then
    if keys.filter.interface.isSome then .error .invalid
    else if h : dbusValidateInterface value then
      .ok { keys with
        filter := { keys.filter with interface := some value }
        interfaceValid := fun _ hs => Option.some.inj hs ▸ h }
    else .error .invalid
  else if key = lit "member" then
    if keys.filter.member.isSome then .error .invalid
    else if h : dbusValidateMember value then
      .ok { keys with
        filter := { keys.filter with member := some value }
        memberValid := fun _ hs => Option.some.inj hs ▸ h }
    else .error .invalid
  else if key = lit "path" then
    if keys.filter.path.isSome || keys.pathNamespace.isSome then .error .invalid
    else if h : cDvarIsPath value then
      .ok { keys with
        filter := { keys.filter with path := some value }
        pathValid := fun _ hs => Option.some.inj hs ▸ h }
    else .error .invalid
  else if key = lit "path_namespace" then
    if keys.pathNamespace.isSome || keys.filter.path.isSome then .error .invalid
    else if h : cDvarIsPath value then
      .ok { keys with pathNamespace := some value, pathNamespaceValid := fun _ hs => Option.some.inj hs ▸ h }
    else .error .invalid
  else if key = lit "eavesdrop" then
    -- parsed for monitors and forgotten
    if !allowEavesdrop then .error .invalid
    else if value != lit "true" && value != lit "false" then .error .invalid
    else .ok keys
  else if key = lit "arg0namespace" then
    if keys.arg0namespace.isSome || (argAt keys.filter.args 0).isSome || (argAt keys.filter.argpaths 0).isSome then
      .error .invalid
    else if h : dbusValidateNamespace value then
      .ok { keys with arg0namespace := some value, arg0namespaceValid := fun _ hs => Option.some.inj hs ▸ h }
    else .error .invalid
  else match stringPrefix key (lit "arg") with
    | some rest => matchKeysAssignArg keys rest value
    | none => .error .invalid

/-- `match_copy_value`: decode a value up to the comma that ends it, or to the end of the string. -/
def matchCopyValue : Bytes → Bool → Except MatchError (Bytes × Bytes)
  | [], quoted => if quoted then .error .invalid else .ok ([], [])
  | c :: rest, quoted =>
    if c = byte '\'' then matchCopyValue rest !quoted
    else if c = byte ',' && !quoted then .ok ([], rest)
    else
      match c = byte '\\' && !quoted, rest with
      | true, c' :: rest' =>
        -- outside quotes a backslash escapes an apostrophe, and nothing else
        if c' = byte '\'' then (matchCopyValue rest' quoted).map fun r => (c' :: r.1, r.2)
        else (matchCopyValue (c' :: rest') quoted).map fun r => (c :: r.1, r.2)
      | _, rest => (matchCopyValue rest quoted).map fun r => (c :: r.1, r.2)

/-- The white space of the rule grammar. -/
def isMatchSpace (c : UInt8) : Bool := c = byte ' ' || c = byte '\t' || c = byte '\n' || c = byte '\r'

/-- `match_parse_key`: the next key, and the string behind its equals sign. -/
def matchParseKey (string : Bytes) : Except MatchError (Bytes × Bytes) :=
  let isDelimiter := fun c => isMatchSpace c || c = byte '='
  let string := string.dropWhile isDelimiter
  if string.isEmpty then .error .eof
  else
    let key := string.takeWhile fun c => !isDelimiter c
    let string := string.dropWhile fun c => !isDelimiter c
    if string.isEmpty then .error .invalid
    else match string.dropWhile isMatchSpace with
      | c :: rest => if c = byte '=' then .ok (key, rest) else .error .invalid
      | [] => .error .invalid

/-- The loop of `match_keys_parse`. Each round consumes the equals sign of its key. -/
def matchKeysParseLoop (allowEavesdrop : Bool) : ℕ → MatchKeys → Bytes → Except MatchError MatchKeys
  | 0, _, _ => .error .invalid
  | fuel + 1, keys, string =>
    match matchParseKey string with
    | .error .eof => .ok keys
    | .error e => .error e
    | .ok (key, string) =>
      match matchCopyValue string false with
      | .error e => .error e
      | .ok (value, string) =>
        match matchKeysAssign keys key value allowEavesdrop with
        | .error e => .error e
        | .ok keys => matchKeysParseLoop allowEavesdrop fuel keys string

/-- `match_keys_parse`. -/
def matchKeysParse (string : Bytes) (allowEavesdrop : Bool) : Except MatchError MatchKeys :=
  matchKeysParseLoop allowEavesdrop (string.length + 1) matchKeysNull string

/-- `MATCH_RULE_LENGTH_MAX`. -/
def matchRuleLengthMax : ℕ := 1024

/-- `match_keys_new` and the parsing part of `match_rule_new`. -/
def matchKeysNew (string : Bytes) (allowEavesdrop : Bool) : Except MatchError MatchKeys :=
  if matchRuleLengthMax < string.length then .error .invalid else matchKeysParse string allowEavesdrop

/-- `match_string_prefix`. -/
def matchStringPrefix (string pre : Option Bytes) (delimiter : UInt8) (delimiterIncluded : Bool) : Bool :=
  match string, pre with
  | none, none => true
  | some string, some pre =>
    match stringPrefix string pre with
    | none => false
    | some tail =>
      if delimiterIncluded then !(pre.isEmpty || (!tail.isEmpty && pre.getLast? != some delimiter))
      else tail.isEmpty || tail.head? == some delimiter
  | _, _ => false

/-- The test of one argument slot in `match_keys_match_metadata`. -/
def matchArg (filter : MatchFilter) (metadata : MessageMetadata) (i : ℕ) : Bool :=
  ((argAt filter.args i).isNone ||
    (metadata.element i == byte 's' && stringEqual (argAt filter.args i) (metadata.value i))) &&
  ((argAt filter.argpaths i).isNone ||
    (matchStringPrefix (metadata.value i) (argAt filter.argpaths i) (byte '/') true ||
      matchStringPrefix (argAt filter.argpaths i) (metadata.value i) (byte '/') true))

/-- `match_keys_match_metadata`. -/
def matchKeysMatchMetadata (keys : MatchKeys) (metadata : MessageMetadata) : Bool :=
  keys.filter.args.length ≤ metadata.args.length &&
  keys.filter.argpaths.length ≤ metadata.args.length &&
  (keys.pathNamespace.isNone || matchStringPrefix metadata.path keys.pathNamespace (byte '/') false) &&
  (keys.arg0namespace.isNone ||
    (metadata.element 0 == byte 's' &&
      matchStringPrefix (metadata.value 0) keys.arg0namespace (byte '.') false)) &&
  ((List.range (max keys.filter.args.length keys.filter.argpaths.length)).all
    fun i => matchArg keys.filter metadata i) &&
  (keys.filter.type == dbusMessageTypeInvalid || keys.filter.type == metadata.type) &&
  (keys.filter.sender.isNone || keys.filter.sender == metadata.senderId) &&
  (keys.filter.interface.isNone || stringEqual keys.filter.interface metadata.interface) &&
  (keys.filter.member.isNone || stringEqual keys.filter.member metadata.member) &&
  (keys.filter.path.isNone || stringEqual keys.filter.path metadata.path)

end DbusBroker
