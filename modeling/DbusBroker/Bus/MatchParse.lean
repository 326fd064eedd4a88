import DbusBroker.Bus.MatchGrammar

/-!
# The parser of match rules

`match_keys_parse` accepts exactly the rule strings in which the number of an argument has two
digits at most, and records exactly their pairs. It also takes a number without any digits,
which it reads as zero.
-/

namespace DbusBroker

/-! ## Keys -/

/-- The key that `match_keys_assign` takes a string for. -/
def readRuleKey (key : Bytes) : Option RuleKey :=
  if key = lit "type" then some .type
  else if key = lit "sender" then some .sender
  else if key = lit "destination" then some .destination
  else if key = lit "interface" then some .interface
  else if key = lit "member" then some .member
  else if key = lit "path" then some .path
  else if key = lit "path_namespace" then some .pathNamespace
  else if key = lit "arg0namespace" then some .arg0namespace
  else (stringPrefix key (lit "arg")).bind fun rest =>
    let number := argIndex 2 rest 0
    if 63 < number.1 then none
    else if number.2 = [] then some (.arg number.1)
    else if number.2 = lit "path" then some (.argpath number.1)
    else none

section Keys

variable {n i : ℕ} {digits tail key : Bytes} {k l : RuleKey} {fewest : ℕ}

/-- Digits are read as long as there may be more of them. -/
theorem argIndex_append (hdigits : ∀ c ∈ digits, isDigit c = true) (hlength : digits.length ≤ n)
    (htail : tail.head?.any isDigit = false) :
    argIndex n (digits ++ tail) i = (digits.foldl (fun n c => n * 10 + (c - byte '0').toNat) i, tail) := by
  induction digits generalizing n i with
  | nil =>
    cases n with
    | zero => rfl
    | succ n =>
      cases tail with
      | nil => rfl
      | cons c tail =>
        have hc : isDigit c = false := htail
        rw [List.nil_append, argIndex, if_neg (ne_true_of_eq_false hc)]
        rfl
  | cons c digits ih =>
    cases n with
    | zero => exact absurd hlength (by simp)
    | succ n =>
      rw [List.cons_append, argIndex, if_pos (hdigits c List.mem_cons_self)]
      exact ih (fun d hd => hdigits d (List.mem_cons_of_mem c hd)) (Nat.le_of_succ_le_succ hlength)

/-- What is read are digits, and what is left follows them. -/
theorem exists_of_argIndex (n : ℕ) (key : Bytes) (i : ℕ) :
    ∃ digits, key = digits ++ (argIndex n key i).2 ∧ (∀ c ∈ digits, isDigit c = true) ∧ digits.length ≤ n ∧
      (argIndex n key i).1 = digits.foldl (fun n c => n * 10 + (c - byte '0').toNat) i := by
  induction n generalizing key i with
  | zero => exact ⟨[], rfl, by simp, Nat.le_refl 0, rfl⟩
  | succ n ih =>
    cases key with
    | nil => exact ⟨[], rfl, by simp, Nat.zero_le _, rfl⟩
    | cons c key =>
      rw [argIndex]
      cases hc : isDigit c with
      | false => exact ⟨[], rfl, by simp, Nat.zero_le _, rfl⟩
      | true =>
        obtain ⟨digits, hkey, hdigits, hlength, hvalue⟩ := ih key (i * 10 + (c - byte '0').toNat)
        refine ⟨c :: digits, congrArg (c :: ·) hkey, ?_, Nat.succ_le_succ hlength, hvalue⟩
        intro d hd
        cases hd with
        | head => exact hc
        | tail _ hd => exact hdigits d hd

/-- What follows `arg` in a key decides which key it is. -/
theorem readRuleKey_arg (rest : Bytes) :
    readRuleKey (lit "arg" ++ rest) =
      if rest = lit "0namespace" then some .arg0namespace
      else if 63 < (argIndex 2 rest 0).1 then none
      else if (argIndex 2 rest 0).2 = [] then some (.arg (argIndex 2 rest 0).1)
      else if (argIndex 2 rest 0).2 = lit "path" then some (.argpath (argIndex 2 rest 0).1)
      else none := by
  have hother (s : Bytes) (hs : s.head? ≠ some (byte 'a')) : lit "arg" ++ rest ≠ s := by
    intro heq
    rw [← heq] at hs
    exact hs rfl
  have hnamespace : lit "arg" ++ rest = lit "arg0namespace" ↔ rest = lit "0namespace" :=
    List.append_cancel_left_eq (lit "arg") rest (lit "0namespace") ▸ Iff.rfl
  have hrest : stringPrefix (lit "arg" ++ rest) (lit "arg") = some rest := (stringPrefix_eq_some_iff _ _ _).mpr rfl
  rw [readRuleKey, if_neg (hother _ (by decide)), if_neg (hother _ (by decide)), if_neg (hother _ (by decide)),
    if_neg (hother _ (by decide)), if_neg (hother _ (by decide)), if_neg (hother _ (by decide)),
    if_neg (hother _ (by decide)), hrest]
  exact if_congr hnamespace rfl rfl

/-- The number of a spelled argument is read from its digits. -/
theorem argIndex_of_argDigits (h : ArgDigits fewest n digits) (tail : Bytes) (htail : tail.head?.any isDigit = false) :
    argIndex 2 (digits ++ tail) 0 = (n, tail) := by
  rw [argIndex_append h.digit h.length_le htail]
  exact congrArg (·, tail) h.value

/-- The digits of a number are not the start of a namespace key. -/
theorem ArgDigits.ne_namespace (h : ArgDigits fewest n digits) (tail : Bytes) (htail : byte 'n' ∉ tail) :
    digits ++ tail ≠ lit "0namespace" := by
  intro heq
  have hn : byte 'n' ∈ digits ++ tail := heq ▸ (by decide)
  obtain hn | hn := List.mem_append.mp hn
  · exact absurd (h.digit _ hn) (by decide)
  · exact htail hn

/-- A key is read as what it spells. -/
theorem RuleKey.Spelled.readRuleKey (h : k.Spelled fewest key) : readRuleKey key = some k := by
  cases k with
  | arg n =>
    obtain ⟨digits, hnumber, rfl⟩ := h
    have hread := argIndex_of_argDigits hnumber [] rfl
    rw [List.append_nil] at hread
    rw [readRuleKey_arg, if_neg (hnumber.ne_namespace [] (by simp) ∘ (List.append_nil digits).trans), hread,
      if_neg (Nat.not_lt.mpr hnumber.le)]
    rfl
  | argpath n =>
    obtain ⟨digits, hnumber, rfl⟩ := h
    have hread := argIndex_of_argDigits hnumber (lit "path") (by decide)
    rw [readRuleKey_arg, if_neg (hnumber.ne_namespace (lit "path") (by decide)), hread, if_neg (Nat.not_lt.mpr hnumber.le)]
    rfl
  | type => rw [show key = lit "type" from h]; decide
  | sender => rw [show key = lit "sender" from h]; decide
  | destination => rw [show key = lit "destination" from h]; decide
  | interface => rw [show key = lit "interface" from h]; decide
  | member => rw [show key = lit "member" from h]; decide
  | path => rw [show key = lit "path" from h]; decide
  | pathNamespace => rw [show key = lit "path_namespace" from h]; decide
  | arg0namespace => rw [show key = lit "arg0namespace" from h]; decide

/-- A key that is read is spelled so, with any number of digits. -/
theorem spelled_of_readRuleKey (h : readRuleKey key = some k) : k.Spelled 0 key := by
  rw [readRuleKey] at h
  by_cases htype : key = lit "type"
  · rw [if_pos htype] at h
    exact Option.some.inj h ▸ htype
  rw [if_neg htype] at h
  by_cases hsender : key = lit "sender"
  · rw [if_pos hsender] at h
    exact Option.some.inj h ▸ hsender
  rw [if_neg hsender] at h
  by_cases hdestination : key = lit "destination"
  · rw [if_pos hdestination] at h
    exact Option.some.inj h ▸ hdestination
  rw [if_neg hdestination] at h
  by_cases hinterface : key = lit "interface"
  · rw [if_pos hinterface] at h
    exact Option.some.inj h ▸ hinterface
  rw [if_neg hinterface] at h
  by_cases hmember : key = lit "member"
  · rw [if_pos hmember] at h
    exact Option.some.inj h ▸ hmember
  rw [if_neg hmember] at h
  by_cases hpath : key = lit "path"
  · rw [if_pos hpath] at h
    exact Option.some.inj h ▸ hpath
  rw [if_neg hpath] at h
  by_cases hnamespace : key = lit "path_namespace"
  · rw [if_pos hnamespace] at h
    exact Option.some.inj h ▸ hnamespace
  rw [if_neg hnamespace] at h
  by_cases harg0 : key = lit "arg0namespace"
  · rw [if_pos harg0] at h
    exact Option.some.inj h ▸ harg0
  rw [if_neg harg0] at h
  obtain ⟨rest, hrest, hnumber⟩ := Option.bind_eq_some_iff.mp h
  have hkey := (stringPrefix_eq_some_iff key (lit "arg") rest).mp hrest
  obtain ⟨digits, hdigits, hdigit, hlength, hvalue⟩ := exists_of_argIndex 2 rest 0
  dsimp only at hnumber
  by_cases hlarge : 63 < (argIndex 2 rest 0).1
  · rw [if_pos hlarge] at hnumber
    cases hnumber
  rw [if_neg hlarge] at hnumber
  have hspelled : ArgDigits 0 (argIndex 2 rest 0).1 digits :=
    ⟨hdigit, Nat.zero_le _, hlength, hvalue.symm, Nat.not_lt.mp hlarge⟩
  by_cases hend : (argIndex 2 rest 0).2 = []
  · rw [if_pos hend] at hnumber
    rw [hend, List.append_nil] at hdigits
    exact Option.some.inj hnumber ▸ ⟨digits, hspelled, hdigits ▸ hkey⟩
  rw [if_neg hend] at hnumber
  by_cases hargpath : (argIndex 2 rest 0).2 = lit "path"
  · rw [if_pos hargpath] at hnumber
    rw [hargpath] at hdigits
    exact Option.some.inj hnumber ▸ ⟨digits, hspelled, hdigits ▸ hkey⟩
  rw [if_neg hargpath] at hnumber
  cases hnumber

/-- A key spells one key only. -/
theorem readRuleKey_eq_some_iff : readRuleKey key = some k ↔ k.Spelled 0 key :=
  ⟨spelled_of_readRuleKey, RuleKey.Spelled.readRuleKey⟩

end Keys

/-! ## Exclusion -/

namespace RuleKey

/-- The keys that exclude each other have the same group. -/
def group : RuleKey → RuleKey
  | .pathNamespace => .path
  | .arg0namespace => .arg 0
  | .argpath n => .arg n
  | k => k

/-- Keys exclude each other exactly within a group. -/
theorem excludes_iff (k l : RuleKey) : k.Excludes l ↔ k.group = l.group := by
  constructor
  · intro h
    induction h with
    | same k => rfl
    | path => rfl
    | arg n => rfl
    | namespaceArg => rfl
    | namespaceArgpath => rfl
    | symm h ih => exact ih.symm
  · intro h
    cases k <;> cases l <;> dsimp only [group] at h <;> cases h
    case path.pathNamespace.refl => exact .path
    case pathNamespace.path.refl => exact .symm .path
    case arg0namespace.arg.refl => exact .namespaceArg
    case arg.arg0namespace.refl => exact .symm .namespaceArg
    case arg0namespace.argpath.refl => exact .namespaceArgpath
    case argpath.arg0namespace.refl => exact .symm .namespaceArgpath
    case arg.argpath.refl n => exact .arg n
    case argpath.arg.refl n => exact .symm (.arg n)
    all_goals exact .same _

end RuleKey

/-! ## Argument slots -/

section Slots

variable {args : List (Option Bytes)} {i j : ℕ} {value : Bytes}

/-- The length of an array after a slot was written. -/
theorem length_argSet (args : List (Option Bytes)) (i : ℕ) (value : Bytes) :
    (argSet args i value).length = max args.length (i + 1) := by
  rw [argSet, List.length_set, List.length_append, List.length_replicate]
  omega

/-- The slots of an array after one of them was written. -/
theorem argAt_argSet (args : List (Option Bytes)) (i j : ℕ) (value : Bytes) :
    argAt (argSet args i value) j = if j = i then some value else argAt args j := by
  rw [argAt, argSet, List.getElem?_set]
  by_cases hij : i = j
  · have hlt : i < (args ++ List.replicate (i + 1 - args.length) none).length := by
      rw [List.length_append, List.length_replicate]
      omega
    rw [if_pos hij, if_pos hlt, if_pos hij.symm]
    rfl
  · rw [if_neg hij, if_neg (Ne.symm hij), argAt, List.getElem?_append]
    split
    · rfl
    · next hlong =>
      -- the slots between the old end and the new one are empty
      rw [List.getElem?_eq_none (Nat.not_lt.mp hlong), List.getElem?_replicate]
      split
      · rfl
      · rfl

/-- Writing an empty slot keeps the array as short as it can be. -/
theorem getLast?_argSet (h : args.getLast? ≠ some none) (i : ℕ) (value : Bytes) :
    (argSet args i value).getLast? ≠ some none := by
  have hlength := length_argSet args i value
  rw [List.getLast?_eq_getElem?, hlength]
  by_cases hlast : args.length ≤ i + 1
  · rw [show max args.length (i + 1) - 1 = i by omega, argSet, List.getElem?_set_self]
    · simp
    · rw [List.length_append, List.length_replicate]
      omega
  · rw [show max args.length (i + 1) - 1 = args.length - 1 by omega, argSet, List.getElem?_set_ne (by omega),
      List.getElem?_append_left (by omega), ← List.getLast?_eq_getElem?]
    exact h

end Slots

/-! ## Assignment -/

namespace MatchKeys

/-- What `match_keys_assign` checks: the key, or one that excludes it, was given before. -/
def taken (keys : MatchKeys) : RuleKey → Bool
  | .type => keys.filter.type != dbusMessageTypeInvalid
  | .sender => keys.sender.isSome
  | .destination => keys.destination.isSome
  | .interface => keys.filter.interface.isSome
  | .member => keys.filter.member.isSome
  | .path => keys.filter.path.isSome || keys.pathNamespace.isSome
  | .pathNamespace => keys.pathNamespace.isSome || keys.filter.path.isSome
  | .arg0namespace =>
    keys.arg0namespace.isSome || (argAt keys.filter.args 0).isSome || (argAt keys.filter.argpaths 0).isSome
  | .arg n => (n = 0 && keys.arg0namespace.isSome) || (argAt keys.filter.args n).isSome ||
      (argAt keys.filter.argpaths n).isSome
  | .argpath n => (n = 0 && keys.arg0namespace.isSome) || (argAt keys.filter.args n).isSome ||
      (argAt keys.filter.argpaths n).isSome

/-- Keys to which one pair was added. -/
structure Assigned (keys keys' : MatchKeys) (k : RuleKey) (value : Bytes) : Prop where
  get : ∀ l, keys'.get l = if l = k then some value else keys.get l
  tight : keys.Tight → keys'.Tight

/-- A pair is added if its key is not taken and its value is accepted. -/
def AssignSpec (keys : MatchKeys) (k : RuleKey) (value : Bytes) (r : Except MatchError MatchKeys) : Prop :=
  (keys.taken k = false ∧ k.accepts value = true ∧ ∃ keys', r = .ok keys' ∧ Assigned keys keys' k value) ∨
    ((keys.taken k = true ∨ k.accepts value = false) ∧ r = .error .invalid)

/-- The two checks of an assignment. -/
theorem assignSpec_of {keys : MatchKeys} {k : RuleKey} {value : Bytes} {r : Except MatchError MatchKeys}
    {f : k.accepts value = true → MatchKeys}
    (hr : r = if keys.taken k = true then .error .invalid else if h : k.accepts value = true then .ok (f h)
      else .error .invalid)
    (hf : ∀ h, Assigned keys (f h) k value) : AssignSpec keys k value r := by
  rw [hr]
  by_cases htaken : keys.taken k = true
  · exact .inr ⟨.inl htaken, if_pos htaken⟩
  · by_cases haccepts : k.accepts value = true
    · exact .inl ⟨Bool.eq_false_iff.mpr htaken, haccepts, f haccepts, (if_neg htaken).trans (dif_pos haccepts),
        hf haccepts⟩
    · exact .inr ⟨.inr (Bool.eq_false_iff.mpr haccepts), (if_neg htaken).trans (dif_neg haccepts)⟩

end MatchKeys

section Assign

variable (keys : MatchKeys) (value : Bytes)

open MatchKeys

/-- The names of the message types. -/
theorem matchTypeName_eq_some_iff (type : UInt8) (value : Bytes) :
    matchTypeName type = some value ↔ matchType value = some type := by
  have hnames (v w : Bytes) : some v = some w ↔ w = v := by rw [Option.some.injEq, eq_comm]
  have htypes (t u : UInt8) : some t = some u ↔ u = t := by rw [Option.some.injEq, eq_comm]
  rw [matchTypeName, matchType]
  by_cases hsignal : type = dbusMessageTypeSignal
  · rw [if_pos hsignal, hnames, hsignal]
    constructor
    · intro hvalue
      exact if_pos hvalue
    · intro h
      by_contra hvalue
      rw [if_neg hvalue] at h
      split_ifs at h <;> cases h
  by_cases hcall : type = dbusMessageTypeMethodCall
  · rw [if_neg hsignal, if_pos hcall, hnames, hcall]
    constructor
    · intro hvalue
      rw [hvalue]
      rfl
    · intro h
      by_contra hvalue
      rw [if_neg hvalue] at h
      split_ifs at h <;> cases h
  by_cases hreturn : type = dbusMessageTypeMethodReturn
  · rw [if_neg hsignal, if_neg hcall, if_pos hreturn, hnames, hreturn]
    constructor
    · intro hvalue
      rw [hvalue]
      rfl
    · intro h
      by_contra hvalue
      rw [if_neg hvalue] at h
      split_ifs at h <;> cases h
  by_cases herror : type = dbusMessageTypeError
  · rw [if_neg hsignal, if_neg hcall, if_neg hreturn, if_pos herror, hnames, herror]
    constructor
    · intro hvalue
      rw [hvalue]
      rfl
    · intro h
      by_contra hvalue
      rw [if_neg hvalue] at h
      split_ifs at h <;> cases h
  rw [if_neg hsignal, if_neg hcall, if_neg hreturn, if_neg herror]
  refine iff_of_false (by simp) fun h => ?_
  split_ifs at h
  · exact hsignal (Option.some.inj h).symm
  · exact hcall (Option.some.inj h).symm
  · exact hreturn (Option.some.inj h).symm
  · exact herror (Option.some.inj h).symm

theorem assignSpec_type : AssignSpec keys .type value (matchKeysAssign keys (lit "type") value false) := by
  by_cases htaken : keys.taken .type = true
  · exact .inr ⟨.inl htaken, (if_pos rfl).trans (if_pos htaken)⟩
  cases htype : matchType value with
  | none =>
    refine .inr ⟨.inr (by rw [RuleKey.accepts, htype, Option.isSome_none]), ?_⟩
    exact (if_pos rfl).trans ((if_neg htaken).trans (by rw [htype]))
  | some type =>
    have hname : matchTypeName type = some value := (matchTypeName_eq_some_iff type value).mpr htype
    refine .inl ⟨Bool.eq_false_iff.mpr htaken, by rw [RuleKey.accepts, htype, Option.isSome_some],
      { keys with filter := { keys.filter with type := type } },
      (if_pos rfl).trans ((if_neg htaken).trans (by rw [htype])), fun l => ?_,
      fun ht => ⟨ht.args, ht.argpaths, .inr (Option.isSome_of_eq_some hname)⟩⟩
    cases l
    case type => exact hname
    all_goals rfl

theorem assignSpec_sender : AssignSpec keys .sender value (matchKeysAssign keys (lit "sender") value false) :=
  assignSpec_of ((if_neg (by decide)).trans (if_pos rfl)) fun h =>
    ⟨fun l => by cases l <;> rfl, fun ht => ⟨ht.args, ht.argpaths, ht.type⟩⟩

theorem assignSpec_destination :
    AssignSpec keys .destination value (matchKeysAssign keys (lit "destination") value false) :=
  assignSpec_of ((if_neg (by decide)).trans ((if_neg (by decide)).trans (if_pos rfl))) fun h =>
    ⟨fun l => by cases l <;> rfl, fun ht => ⟨ht.args, ht.argpaths, ht.type⟩⟩

theorem assignSpec_interface :
    AssignSpec keys .interface value (matchKeysAssign keys (lit "interface") value false) :=
  assignSpec_of ((if_neg (by decide)).trans ((if_neg (by decide)).trans ((if_neg (by decide)).trans (if_pos rfl))))
    fun h => ⟨fun l => by cases l <;> rfl, fun ht => ⟨ht.args, ht.argpaths, ht.type⟩⟩

theorem assignSpec_member : AssignSpec keys .member value (matchKeysAssign keys (lit "member") value false) :=
  assignSpec_of ((if_neg (by decide)).trans ((if_neg (by decide)).trans ((if_neg (by decide)).trans
    ((if_neg (by decide)).trans (if_pos rfl))))) fun h =>
    ⟨fun l => by cases l <;> rfl, fun ht => ⟨ht.args, ht.argpaths, ht.type⟩⟩

theorem assignSpec_path : AssignSpec keys .path value (matchKeysAssign keys (lit "path") value false) :=
  assignSpec_of ((if_neg (by decide)).trans ((if_neg (by decide)).trans ((if_neg (by decide)).trans
    ((if_neg (by decide)).trans ((if_neg (by decide)).trans (if_pos rfl)))))) fun h =>
    ⟨fun l => by cases l <;> rfl, fun ht => ⟨ht.args, ht.argpaths, ht.type⟩⟩

theorem assignSpec_pathNamespace :
    AssignSpec keys .pathNamespace value (matchKeysAssign keys (lit "path_namespace") value false) :=
  assignSpec_of ((if_neg (by decide)).trans ((if_neg (by decide)).trans ((if_neg (by decide)).trans
    ((if_neg (by decide)).trans ((if_neg (by decide)).trans ((if_neg (by decide)).trans (if_pos rfl))))))) fun h =>
    ⟨fun l => by cases l <;> rfl, fun ht => ⟨ht.args, ht.argpaths, ht.type⟩⟩

theorem assignSpec_arg0namespace :
    AssignSpec keys .arg0namespace value (matchKeysAssign keys (lit "arg0namespace") value false) :=
  assignSpec_of ((if_neg (by decide)).trans ((if_neg (by decide)).trans ((if_neg (by decide)).trans
    ((if_neg (by decide)).trans ((if_neg (by decide)).trans ((if_neg (by decide)).trans ((if_neg (by decide)).trans
      ((if_neg (by decide)).trans (if_pos rfl))))))))) fun h =>
    ⟨fun l => by cases l <;> rfl, fun ht => ⟨ht.args, ht.argpaths, ht.type⟩⟩

/-- The branch for the arguments of a message. -/
theorem matchKeysAssign_arg {rest : Bytes} (hrest : rest ≠ lit "0namespace") :
    matchKeysAssign keys (lit "arg" ++ rest) value false = matchKeysAssignArg keys rest value := by
  have hother (s : Bytes) (hs : s.head? ≠ some (byte 'a')) : lit "arg" ++ rest ≠ s := by
    intro heq
    rw [← heq] at hs
    exact hs rfl
  have hnamespace : lit "arg" ++ rest ≠ lit "arg0namespace" := fun heq => hrest (List.append_cancel_left heq)
  have hhead : stringPrefix (lit "arg" ++ rest) (lit "arg") = some rest := (stringPrefix_eq_some_iff _ _ _).mpr rfl
  rw [matchKeysAssign, if_neg (hother _ (by decide)), if_neg (hother _ (by decide)), if_neg (hother _ (by decide)),
    if_neg (hother _ (by decide)), if_neg (hother _ (by decide)), if_neg (hother _ (by decide)),
    if_neg (hother _ (by decide)), if_neg (hother _ (by decide)), if_neg hnamespace, hhead]

/-- The checks of an argument are one check, for a number in range. -/
theorem argChecks {α : Type} {n : ℕ} (hn : n ≤ 63) (a b c : Bool) (error ok : α) :
    (if a = true then error else if 63 < n then error else if (b || c) = true then error else ok) =
      if (a || b || c) = true then error else ok := by
  rw [if_neg (Nat.not_lt.mpr hn)]
  cases a <;> rfl

theorem assignSpec_arg {rest : Bytes} {n : ℕ} (hrest : rest ≠ lit "0namespace") (hn : n ≤ 63)
    (hindex : argIndex 2 rest 0 = (n, [])) :
    AssignSpec keys (.arg n) value (matchKeysAssign keys (lit "arg" ++ rest) value false) := by
  rw [matchKeysAssign_arg keys value hrest, matchKeysAssignArg, hindex]
  refine assignSpec_of (f := fun _ =>
    { keys with filter := { keys.filter with args := argSet keys.filter.args n value } })
    (argChecks hn _ _ _ _ _) fun _ => ⟨fun l => ?_, fun ht => ⟨getLast?_argSet ht.args n value, ht.argpaths, ht.type⟩⟩
  cases l
  case arg j => exact (argAt_argSet _ _ _ _).trans (if_congr (by rw [RuleKey.arg.injEq]) rfl rfl)
  all_goals rfl

theorem assignSpec_argpath {rest : Bytes} {n : ℕ} (hrest : rest ≠ lit "0namespace") (hn : n ≤ 63)
    (hindex : argIndex 2 rest 0 = (n, lit "path")) :
    AssignSpec keys (.argpath n) value (matchKeysAssign keys (lit "arg" ++ rest) value false) := by
  rw [matchKeysAssign_arg keys value hrest, matchKeysAssignArg, hindex]
  refine assignSpec_of (f := fun _ =>
    { keys with filter := { keys.filter with argpaths := argSet keys.filter.argpaths n value } })
    (argChecks hn _ _ _ _ _) fun _ => ⟨fun l => ?_, fun ht => ⟨ht.args, getLast?_argSet ht.argpaths n value, ht.type⟩⟩
  cases l
  case argpath j => exact (argAt_argSet _ _ _ _).trans (if_congr (by rw [RuleKey.argpath.injEq]) rfl rfl)
  all_goals rfl

/-- Only the key `eavesdrop` depends on what the caller allows. -/
theorem matchKeysAssign_of_ne_eavesdrop {key : Bytes} (hkey : key ≠ lit "eavesdrop") (allowEavesdrop : Bool) :
    matchKeysAssign keys key value allowEavesdrop = matchKeysAssign keys key value false := by
  simp only [matchKeysAssign, if_neg hkey]

/-- A key `eavesdrop` is checked and forgotten. -/
theorem matchKeysAssign_eavesdrop (allowEavesdrop : Bool) :
    matchKeysAssign keys (lit "eavesdrop") value allowEavesdrop =
      if !allowEavesdrop then .error .invalid
      else if value != lit "true" && value != lit "false" then .error .invalid
      else .ok keys :=
  (if_neg (by decide)).trans ((if_neg (by decide)).trans ((if_neg (by decide)).trans ((if_neg (by decide)).trans
    ((if_neg (by decide)).trans ((if_neg (by decide)).trans ((if_neg (by decide)).trans (if_pos rfl)))))))

/-- A key `eavesdrop` that is allowed leaves the keys as they are. -/
theorem matchKeysAssign_eavesdrop_of_word {value : Bytes} {allowEavesdrop : Bool} (hallow : allowEavesdrop = true)
    (hvalue : value = lit "true" ∨ value = lit "false") :
    matchKeysAssign keys (lit "eavesdrop") value allowEavesdrop = .ok keys := by
  rw [matchKeysAssign_eavesdrop, hallow]
  exact (if_neg (by decide)).trans (if_neg (by simpa [imp_iff_not_or] using hvalue))

/-- A key that is read is assigned as what it spells. -/
theorem assignSpec_of_readRuleKey {key : Bytes} {k : RuleKey} (h : readRuleKey key = some k) (allowEavesdrop : Bool) :
    AssignSpec keys k value (matchKeysAssign keys key value allowEavesdrop) := by
  have hkey : key ≠ lit "eavesdrop" := by
    intro heq
    rw [heq, (by decide : readRuleKey (lit "eavesdrop") = none)] at h
    cases h
  rw [matchKeysAssign_of_ne_eavesdrop keys value hkey]
  have hspelled := spelled_of_readRuleKey h
  cases k with
  | type => exact (show key = lit "type" from hspelled) ▸ assignSpec_type keys value
  | sender => exact (show key = lit "sender" from hspelled) ▸ assignSpec_sender keys value
  | destination => exact (show key = lit "destination" from hspelled) ▸ assignSpec_destination keys value
  | interface => exact (show key = lit "interface" from hspelled) ▸ assignSpec_interface keys value
  | member => exact (show key = lit "member" from hspelled) ▸ assignSpec_member keys value
  | path => exact (show key = lit "path" from hspelled) ▸ assignSpec_path keys value
  | pathNamespace => exact (show key = lit "path_namespace" from hspelled) ▸ assignSpec_pathNamespace keys value
  | arg0namespace => exact (show key = lit "arg0namespace" from hspelled) ▸ assignSpec_arg0namespace keys value
  | arg n =>
    obtain ⟨digits, hnumber, rfl⟩ := hspelled
    have hread := argIndex_of_argDigits hnumber [] rfl
    rw [List.append_nil] at hread
    exact assignSpec_arg keys value (hnumber.ne_namespace [] (by simp) ∘ (List.append_nil digits).trans) hnumber.le hread
  | argpath n =>
    obtain ⟨digits, hnumber, rfl⟩ := hspelled
    exact assignSpec_argpath keys value (hnumber.ne_namespace (lit "path") (by decide)) hnumber.le
      (argIndex_of_argDigits hnumber (lit "path") (by decide))

/-- Another key that is not read is refused. -/
theorem matchKeysAssign_of_readRuleKey_none {key : Bytes} (h : readRuleKey key = none) :
    matchKeysAssign keys key value false = .error .invalid := by
  rw [readRuleKey] at h
  rw [matchKeysAssign]
  by_cases htype : key = lit "type"
  · rw [if_pos htype] at h
    cases h
  rw [if_neg htype] at h ⊢
  by_cases hsender : key = lit "sender"
  · rw [if_pos hsender] at h
    cases h
  rw [if_neg hsender] at h ⊢
  by_cases hdestination : key = lit "destination"
  · rw [if_pos hdestination] at h
    cases h
  rw [if_neg hdestination] at h ⊢
  by_cases hinterface : key = lit "interface"
  · rw [if_pos hinterface] at h
    cases h
  rw [if_neg hinterface] at h ⊢
  by_cases hmember : key = lit "member"
  · rw [if_pos hmember] at h
    cases h
  rw [if_neg hmember] at h ⊢
  by_cases hpath : key = lit "path"
  · rw [if_pos hpath] at h
    cases h
  rw [if_neg hpath] at h ⊢
  by_cases hnamespace : key = lit "path_namespace"
  · rw [if_pos hnamespace] at h
    cases h
  rw [if_neg hnamespace] at h ⊢
  by_cases heavesdrop : key = lit "eavesdrop"
  · rw [if_pos heavesdrop]
    rfl
  rw [if_neg heavesdrop]
  by_cases harg0 : key = lit "arg0namespace"
  · rw [if_pos harg0] at h
    cases h
  rw [if_neg harg0] at h ⊢
  cases hrest : stringPrefix key (lit "arg") with
  | none => rfl
  | some rest =>
    rw [hrest, Option.bind_some] at h
    dsimp only at h ⊢
    obtain ⟨n, tail, hindex⟩ : ∃ n tail, argIndex 2 rest 0 = (n, tail) := ⟨_, _, rfl⟩
    rw [matchKeysAssignArg, hindex]
    rw [hindex] at h
    dsimp only at h ⊢
    by_cases hlarge : 63 < n
    · rw [if_pos hlarge]
      split <;> rfl
    · rw [if_neg hlarge] at h ⊢
      by_cases hend : tail = []
      · rw [if_pos hend] at h
        cases h
      rw [if_neg hend] at h ⊢
      by_cases hargpath : tail = lit "path"
      · rw [if_pos hargpath] at h
        cases h
      rw [if_neg hargpath]
      split
      · rfl
      · split <;> rfl

/-- A key that is not read is refused, unless it is an allowed `eavesdrop`. -/
theorem matchKeysAssign_cases_none {key : Bytes} (h : readRuleKey key = none) (allowEavesdrop : Bool) :
    matchKeysAssign keys key value allowEavesdrop = .error .invalid ∨
      key = lit "eavesdrop" ∧ allowEavesdrop = true ∧ (value = lit "true" ∨ value = lit "false") ∧
        matchKeysAssign keys key value allowEavesdrop = .ok keys := by
  by_cases hkey : key = lit "eavesdrop"
  · rw [hkey]
    by_cases hallowed : allowEavesdrop = true ∧ (value = lit "true" ∨ value = lit "false")
    · obtain ⟨hallow, hvalue⟩ := hallowed
      exact .inr ⟨rfl, hallow, hvalue, matchKeysAssign_eavesdrop_of_word keys hallow hvalue⟩
    · rw [matchKeysAssign_eavesdrop]
      cases allowEavesdrop with
      | false => exact .inl rfl
      | true => exact .inl ((if_neg (by decide)).trans (if_pos (by simpa using hallowed)))
  · rw [matchKeysAssign_of_ne_eavesdrop keys value hkey]
    exact .inl (matchKeysAssign_of_readRuleKey_none keys value h)

end Assign

end DbusBroker
