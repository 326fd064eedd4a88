import DbusBroker.Bus.MatchScan
import DbusBroker.Bus.RuleString

/-!
# The meaning of match rules

What each key of an accepted rule asks of a message. A rule matches a message if every key but
one is met: the destination is parsed, checked and compared with that of other rules, but no
lookup asks for it.
-/

namespace DbusBroker

open Std Machine

/-- Keys that the parser returned for some rule string. -/
def MatchKeys.Accepted (keys : MatchKeys) : Prop :=
  ∃ string allowEavesdrop, matchKeysNew string allowEavesdrop = .ok keys

/-- The arrays of accepted keys end with their last used slot. -/
theorem MatchKeys.Accepted.tight {keys : MatchKeys} (h : keys.Accepted) : keys.Tight := by
  obtain ⟨string, allowEavesdrop, hnew⟩ := h
  rw [matchKeysNew] at hnew
  split_ifs at hnew
  obtain ⟨pairs, -, hrecords⟩ := (matchKeysParse_eq_ok_iff string allowEavesdrop keys).mp hnew
  exact hrecords.tight

/-! ## Keys and messages -/

/-- What a key asks of a message. A sender that is no id is not looked for in the message: it
selects the registry that its rule is linked in. -/
def RuleKey.Asks (metadata : MessageMetadata) : RuleKey → Bytes → Prop
  | .type, v => matchType v = some metadata.type
  | .sender, v => ∀ id, addressId v = some id → metadata.senderId = some id
  | .destination, v => metadata.destination = some v
  | .interface, v => metadata.interface = some v
  | .member, v => metadata.member = some v
  | .path, v => metadata.path = some v
  | .pathNamespace, v => matchStringPrefix metadata.path (some v) (byte '/') false = true
  | .arg0namespace, v =>
    metadata.element 0 = byte 's' ∧ matchStringPrefix (metadata.value 0) (some v) (byte '.') false = true
  | .arg n, v => metadata.element n = byte 's' ∧ metadata.value n = some v
  | .argpath n, v =>
    matchStringPrefix (metadata.value n) (some v) (byte '/') true = true ∨
      matchStringPrefix (some v) (metadata.value n) (byte '/') true = true

section Meaning

variable {keys : MatchKeys} {metadata : MessageMetadata}

/-- An optional key that must equal a field of the message. -/
theorem stringEqual_key_iff (key value : Option Bytes) :
    (key.isNone || stringEqual key value) = true ↔ ∀ v, key = some v → value = some v := by
  cases key with
  | none => simp
  | some k =>
    rw [Option.isNone_some, Bool.false_or, stringEqual_iff]
    constructor
    · intro heq v hv
      rw [← heq, hv]
    · exact fun h => (h k rfl).symm

/-- The last slot of an array is used. -/
theorem exists_argAt_last {args : List (Option Bytes)} (h : args.getLast? ≠ some none) (hne : args ≠ []) :
    ∃ v, argAt args (args.length - 1) = some v := by
  have hlast : args.length - 1 < args.length := Nat.sub_lt (List.length_pos_of_ne_nil hne) Nat.zero_lt_one
  rw [List.getLast?_eq_getElem?, List.getElem?_eq_getElem hlast] at h
  rw [argAt, List.getElem?_eq_getElem hlast]
  cases hslot : args[args.length - 1] with
  | none =>
    rw [hslot] at h
    exact absurd rfl h
  | some v => exact ⟨v, rfl⟩

/-- A used slot is within the array. -/
theorem lt_length_of_argAt {args : List (Option Bytes)} {i : ℕ} {v : Bytes} (h : argAt args i = some v) :
    i < args.length := by
  by_contra hlong
  rw [argAt, List.getElem?_eq_none (Nat.not_lt.mp hlong)] at h
  cases h

/-- An argument that has a type or a value is one of the message. -/
theorem lt_length_of_element {i : ℕ} (h : metadata.element i = byte 's' ∨ (metadata.value i).isSome = true) :
    i < metadata.args.length := by
  by_contra hlong
  have hnone : metadata.args[i]? = none := List.getElem?_eq_none (Nat.not_lt.mp hlong)
  rw [MessageMetadata.element, MessageMetadata.value, hnone] at h
  obtain h | h := h
  · exact absurd h (by decide)
  · cases h

/-- The prefix test fails on a string that is not there. -/
theorem isSome_of_matchStringPrefix {value : Option Bytes} {v : Bytes} {delimiter : UInt8} {included : Bool}
    (h : matchStringPrefix value (some v) delimiter included = true ∨
      matchStringPrefix (some v) value delimiter included = true) : value.isSome = true := by
  cases value with
  | none => simp [matchStringPrefix] at h
  | some w => rfl

/-- The slots of a rule are within those of the message, and each used one is met. -/
theorem slots_iff (metadata : MessageMetadata) (asks : ℕ → Bytes → Prop) {args : List (Option Bytes)}
    (h : args.getLast? ≠ some none)
    (hasks : ∀ i v, asks i v → i < metadata.args.length) :
    (args.length ≤ metadata.args.length ∧ ∀ i v, argAt args i = some v → asks i v) ↔
      ∀ i v, argAt args i = some v → asks i v := by
  refine ⟨fun h => h.2, fun hall => ⟨?_, hall⟩⟩
  by_cases hne : args = []
  · rw [hne]
    exact Nat.zero_le _
  · obtain ⟨v, hv⟩ := exists_argAt_last h hne
    have hlast := hasks _ v (hall _ v hv)
    omega

/-- The test of an argument slot. -/
theorem matchArg_iff (filter : MatchFilter) (i : ℕ) :
    matchArg filter metadata i = true ↔
      (∀ v, argAt filter.args i = some v → RuleKey.Asks metadata (.arg i) v) ∧
        ∀ v, argAt filter.argpaths i = some v → RuleKey.Asks metadata (.argpath i) v := by
  rw [matchArg, Bool.and_eq_true]
  refine and_congr ?_ ?_
  · cases harg : argAt filter.args i with
    | none => simp
    | some v =>
      rw [Option.isNone_some, Bool.false_or, Bool.and_eq_true, beq_iff_eq, stringEqual_iff]
      constructor
      · intro h w hw
        exact ⟨h.1, by rw [← h.2, hw]⟩
      · intro h
        obtain ⟨helement, hvalue⟩ := h v rfl
        exact ⟨helement, hvalue.symm⟩
  · cases harg : argAt filter.argpaths i with
    | none => simp
    | some v =>
      rw [Option.isNone_some, Bool.false_or, Bool.or_eq_true]
      constructor
      · intro h w hw
        exact Option.some.inj hw ▸ h
      · exact fun h => h v rfl

/-- The tests of all argument slots. -/
theorem matchArgs_iff (metadata : MessageMetadata) (h : keys.Tight) :
    (keys.filter.args.length ≤ metadata.args.length ∧ keys.filter.argpaths.length ≤ metadata.args.length ∧
      ∀ i ∈ List.range (max keys.filter.args.length keys.filter.argpaths.length),
        matchArg keys.filter metadata i = true) ↔
      (∀ n v, keys.get (.arg n) = some v → RuleKey.Asks metadata (.arg n) v) ∧
        ∀ n v, keys.get (.argpath n) = some v → RuleKey.Asks metadata (.argpath n) v := by
  have hargs := slots_iff metadata (fun n v => RuleKey.Asks metadata (.arg n) v) h.args
    fun i v hasks => lt_length_of_element (.inl hasks.1)
  have hargpaths := slots_iff metadata (fun n v => RuleKey.Asks metadata (.argpath n) v) h.argpaths
    fun i v hasks => lt_length_of_element (.inr (isSome_of_matchStringPrefix hasks))
  constructor
  · intro hall
    obtain ⟨-, -, hslots⟩ := hall
    constructor
    · intro n v hv
      have hmem : n ∈ List.range (max keys.filter.args.length keys.filter.argpaths.length) :=
        List.mem_range.mpr (Nat.lt_of_lt_of_le (lt_length_of_argAt hv) (Nat.le_max_left _ _))
      exact ((matchArg_iff keys.filter n).mp (hslots n hmem)).1 v hv
    · intro n v hv
      have hmem : n ∈ List.range (max keys.filter.args.length keys.filter.argpaths.length) :=
        List.mem_range.mpr (Nat.lt_of_lt_of_le (lt_length_of_argAt hv) (Nat.le_max_right _ _))
      exact ((matchArg_iff keys.filter n).mp (hslots n hmem)).2 v hv
  · intro hall
    exact ⟨(hargs.mpr hall.1).1, (hargpaths.mpr hall.2).1,
      fun i _ => (matchArg_iff keys.filter i).mpr ⟨hall.1 i, hall.2 i⟩⟩

/-- A message type of a rule. -/
theorem type_iff (h : keys.Tight) :
    (keys.filter.type == dbusMessageTypeInvalid || keys.filter.type == metadata.type) = true ↔
      ∀ v, keys.get .type = some v → RuleKey.Asks metadata .type v := by
  rw [Bool.or_eq_true, beq_iff_eq, beq_iff_eq]
  constructor
  · intro htype v hv
    have hname := (matchTypeName_eq_some_iff keys.filter.type v).mp hv
    obtain hinvalid | heq := htype
    · rw [MatchKeys.get, hinvalid] at hv
      exact absurd (Option.isSome_of_eq_some hv) (by decide)
    · rw [RuleKey.Asks, hname, heq]
  · intro hall
    obtain hinvalid | hsome := h.type
    · exact .inl hinvalid
    · obtain ⟨v, hv⟩ := Option.isSome_iff_exists.mp hsome
      have hasks : matchType v = some metadata.type := hall v hv
      rw [(matchTypeName_eq_some_iff _ v).mp hv] at hasks
      exact .inr (Option.some.inj hasks)

/-- The id of a sender. -/
theorem sender_iff :
    (keys.filter.sender.isNone || keys.filter.sender == metadata.senderId) = true ↔
      ∀ v, keys.get .sender = some v → RuleKey.Asks metadata .sender v := by
  rw [keys.senderId]
  show _ ↔ ∀ v, keys.sender = some v → ∀ id, addressId v = some id → metadata.senderId = some id
  cases hsender : keys.sender with
  | none => simp
  | some v =>
    rw [Option.bind_some]
    cases hid : addressId v with
    | none => simp [hid]
    | some id =>
      rw [Option.isNone_some, Bool.false_or, beq_iff_eq]
      constructor
      · intro heq w hw id' hid'
        rw [← Option.some.inj hw, hid] at hid'
        rw [← heq, hid']
      · exact fun h => (h v rfl id hid).symm

/-- A rule matches a message exactly if all its keys but the destination are met. -/
theorem matchKeysMatchMetadata_iff (h : keys.Tight) (metadata : MessageMetadata) :
    matchKeysMatchMetadata keys metadata = true ↔
      ∀ k v, keys.get k = some v → k ≠ .destination → RuleKey.Asks metadata k v := by
  have hargs := matchArgs_iff metadata h
  have hnamespace (value pre : Option Bytes) (delimiter : UInt8) :
      (pre.isNone || matchStringPrefix value pre delimiter false) = true ↔
        ∀ v, pre = some v → matchStringPrefix value (some v) delimiter false = true := by
    cases pre <;> simp
  have harg0 : (keys.arg0namespace.isNone ||
      (metadata.element 0 == byte 's' && matchStringPrefix (metadata.value 0) keys.arg0namespace (byte '.') false)) = true ↔
        ∀ v, keys.get .arg0namespace = some v → RuleKey.Asks metadata .arg0namespace v := by
    show _ ↔ ∀ v, keys.arg0namespace = some v → _ ∧ matchStringPrefix (metadata.value 0) (some v) (byte '.') false = true
    cases keys.arg0namespace <;> simp
  rw [matchKeysMatchMetadata]
  simp only [Bool.and_eq_true, List.all_eq_true, decide_eq_true_eq]
  rw [type_iff h, sender_iff, stringEqual_key_iff, stringEqual_key_iff, stringEqual_key_iff, hnamespace, harg0]
  constructor
  · intro hall k v hv hk
    obtain ⟨⟨⟨⟨⟨⟨⟨⟨⟨hlength, hlength'⟩, hpaths⟩, harg0⟩, hslots⟩, htype⟩, hsender⟩, hinterface⟩, hmember⟩, hpath⟩ := hall
    obtain ⟨harg, hargpath⟩ := hargs.mp ⟨hlength, hlength', hslots⟩
    cases k with
    | type => exact htype v hv
    | sender => exact hsender v hv
    | destination => exact absurd rfl hk
    | interface => exact hinterface v hv
    | member => exact hmember v hv
    | path => exact hpath v hv
    | pathNamespace => exact hpaths v hv
    | arg0namespace => exact harg0 v hv
    | arg n => exact harg n v hv
    | argpath n => exact hargpath n v hv
  · intro hall
    obtain ⟨hlength, hlength', hslots⟩ := hargs.mpr
      ⟨fun n v hv => hall (.arg n) v hv (by simp), fun n v hv => hall (.argpath n) v hv (by simp)⟩
    exact ⟨⟨⟨⟨⟨⟨⟨⟨⟨hlength, hlength'⟩, fun v hv => hall .pathNamespace v hv (by simp)⟩,
      fun v hv => hall .arg0namespace v hv (by simp)⟩, hslots⟩, fun v hv => hall .type v hv (by simp)⟩,
      fun v hv => hall .sender v hv (by simp)⟩, fun v hv => hall .interface v hv (by simp)⟩,
      fun v hv => hall .member v hv (by simp)⟩, fun v hv => hall .path v hv (by simp)⟩

end Meaning

/-! ## The destination of a rule -/

section Destination

variable {ρ ι : Type} [DecidableEq ρ] [DecidableEq ι] {keys : ι → MatchKeys}

/-- A lookup in a tree of a registry finds a rule. Each rule is taken for its own owner. -/
def FindsRule (w : MatchWorld ρ ι ι) (r : ρ) (monitor : Bool) (metadata : MessageMetadata) (rule : ι) : Prop :=
  rule ∈ matchRegistryGetDestinations id ((w.registries r).tree monitor) [] metadata

omit [DecidableEq ρ] in
/-- A lookup finds the linked rules whose keys but the destination are met. -/
theorem findsRule_iff {w : MatchWorld ρ ι ι} (h : MatchIndexed keys w) (hkeys : ∀ rule, (keys rule).Accepted) (r : ρ)
    (monitor : Bool) (metadata : MessageMetadata) (rule : ι) :
    FindsRule w r monitor metadata rule ↔ LinkedIn w.link r monitor rule ∧
      ∀ k v, (keys rule).get k = some v → k ≠ .destination → RuleKey.Asks metadata k v := by
  rw [FindsRule, (h.getDestinations id r monitor metadata).2]
  constructor
  · intro hfound
    obtain ⟨rule', hlinked, hmatch, heq⟩ := hfound
    obtain rfl : rule = rule' := heq
    exact ⟨hlinked, (matchKeysMatchMetadata_iff (hkeys rule).tight metadata).mp hmatch⟩
  · intro hfound
    exact ⟨rule, hfound.1, (matchKeysMatchMetadata_iff (hkeys rule).tight metadata).mpr hfound.2, rfl⟩

/-- Whatever was linked, unlinked and flushed before, a lookup finds a linked rule exactly if the message meets all its
keys but the destination. -/
theorem findsRule_run_iff (hkeys : ∀ rule, (keys rule).Accepted) (ops : List (MatchOp ρ ι)) (r : ρ) (monitor : Bool)
    (metadata : MessageMetadata) (rule : ι) :
    FindsRule (run (MatchWorld.step keys id) .init ops) r monitor metadata rule ↔
      LinkedIn (run (MatchWorld.step keys id) .init ops).link r monitor rule ∧
        ∀ k v, (keys rule).get k = some v → k ≠ .destination → RuleKey.Asks metadata k v :=
  findsRule_iff (matchIndexed_run keys id ops).1 hkeys r monitor metadata rule

/-- A lookup finds a rule with a destination only for messages with this destination. -/
def RestrictsDestination (keys : ι → MatchKeys) (w : MatchWorld ρ ι ι) (r : ρ) (monitor : Bool)
    (metadata : MessageMetadata) (rule : ι) : Prop :=
  ∀ destination, (keys rule).destination = some destination → FindsRule w r monitor metadata rule →
    metadata.destination = some destination

/-- Whatever was linked, unlinked and flushed before, the destination of a linked rule restricts the
messages it is found for exactly if the message has this destination or misses another key. -/
theorem restrictsDestination_iff (hkeys : ∀ rule, (keys rule).Accepted) (ops : List (MatchOp ρ ι)) {r : ρ}
    {monitor : Bool} {rule : ι} (hlinked : LinkedIn (run (MatchWorld.step keys id) .init ops).link r monitor rule)
    (metadata : MessageMetadata) :
    RestrictsDestination keys (run (MatchWorld.step keys id) .init ops) r monitor metadata rule ↔
      ∀ destination, (keys rule).destination = some destination → metadata.destination = some destination ∨
        ∃ k v, k ≠ .destination ∧ (keys rule).get k = some v ∧ ¬RuleKey.Asks metadata k v := by
  rw [RestrictsDestination, findsRule_iff (matchIndexed_run keys id ops).1 hkeys]
  refine forall₂_congr fun destination _ => ⟨fun hrestricts => ?_, fun h hfound => ?_⟩
  · by_cases haddressed : metadata.destination = some destination
    · exact .inl haddressed
    · refine .inr ?_
      by_contra hnone
      refine haddressed (hrestricts ⟨hlinked, fun k v hv hk => ?_⟩)
      by_contra hasks
      exact hnone ⟨k, v, hk, hv, hasks⟩
  · obtain haddressed | ⟨k, v, hk, hv, hasks⟩ := h
    · exact haddressed
    · exact absurd (hfound.2 k v hv hk) hasks

theorem dbusValidateName_of_mem_some {destination : Bytes} (h : dbusValidateName destination = true) :
    ∀ s ∈ some destination, dbusValidateName s = true :=
  fun _ hs => Option.some.inj hs ▸ h

/-- The keys of a rule with nothing but a destination. -/
def destinationKeys (destination : Bytes) (h : dbusValidateName destination = true) : MatchKeys :=
  { matchKeysNull with
    destination := some destination
    destinationValid := dbusValidateName_of_mem_some h }

/-- A rule with nothing but a destination is accepted. -/
theorem accepted_destinationKeys : (destinationKeys (lit ":1.7") (by decide)).Accepted :=
  ⟨lit "destination=':1.7'", false, by decide +kernel⟩

/-- The rule asks for nothing else. -/
theorem asks_destinationKeys (metadata : MessageMetadata) (k : RuleKey) (v : Bytes)
    (hv : (destinationKeys (lit ":1.7") (by decide)).get k = some v) (hk : k ≠ .destination) : RuleKey.Asks metadata k v := by
  cases k <;> first | exact absurd rfl hk | cases hv

/-- A monitor's rule for one destination is found for a message with another one. -/
theorem findsRule_otherDestination :
    FindsRule (run (MatchWorld.step (fun _ : Unit => destinationKeys (lit ":1.7") (by decide)) id) .init
      [.link () false () true]) () true ⟨1, 0, 1, none, none, none, none, none, 0, some (lit ":1.9"), []⟩ () :=
  (findsRule_run_iff (fun _ => accepted_destinationKeys) [.link () false () true] () true
    ⟨1, 0, 1, none, none, none, none, none, 0, some (lit ":1.9"), []⟩ ()).mpr
      ⟨⟨⟨(), true, false⟩, rfl, rfl, rfl⟩, asks_destinationKeys _⟩

/-- A subscription with a destination gets broadcasts, and a monitor with a destination gets messages
with another one. -/
theorem not_restrictsDestination :
    ¬RestrictsDestination (fun _ => destinationKeys (lit ":1.7") (by decide))
        (run (MatchWorld.step (fun _ : Unit => destinationKeys (lit ":1.7") (by decide)) id) .init
          [.link () true () false]) () false ⟨4, 0, 1, none, none, none, none, none, 0, none, []⟩ () ∧
      ¬RestrictsDestination (fun _ => destinationKeys (lit ":1.7") (by decide))
        (run (MatchWorld.step (fun _ : Unit => destinationKeys (lit ":1.7") (by decide)) id) .init
          [.link () false () true]) () true ⟨1, 0, 1, none, none, none, none, none, 0, some (lit ":1.9"), []⟩ () := by
  constructor
  · rw [restrictsDestination_iff (fun _ => accepted_destinationKeys) _ ⟨⟨(), false, true⟩, rfl, rfl, rfl⟩]
    intro hrestricts
    obtain haddressed | ⟨k, v, hk, hv, hasks⟩ := hrestricts (lit ":1.7") rfl
    · cases haddressed
    · exact hasks (asks_destinationKeys _ k v hv hk)
  · rw [restrictsDestination_iff (fun _ => accepted_destinationKeys) _ ⟨⟨(), true, false⟩, rfl, rfl, rfl⟩]
    intro hrestricts
    obtain haddressed | ⟨k, v, hk, hv, hasks⟩ := hrestricts (lit ":1.7") rfl
    · exact absurd haddressed (by decide)
    · exact hasks (asks_destinationKeys _ k v hv hk)

end Destination

end DbusBroker
