import DbusBroker.Bus.MatchParse
import Mathlib.Data.List.TakeWhile

/-!
# Rule strings

`match_keys_parse` as a whole. Each round of its loop reads one pair of the grammar, so it
accepts a string exactly if the pairs of the string are spelled, accepted and compatible, and
the keys it returns hold exactly these pairs. Keys are determined by the pairs they hold.

The one thing the parser takes beyond the grammar is a number of an argument without digits.
-/

namespace DbusBroker

/-! ## Keys and the pairs they hold -/

section Pairs

variable {keys keys' : MatchKeys} {pairs : List (RuleKey × Bytes)} {k : RuleKey} {value : Bytes}

namespace MatchKeys

/-- A type is set if it has a name. -/
theorem Tight.type_ne_iff (h : keys.Tight) :
    keys.filter.type ≠ dbusMessageTypeInvalid ↔ (matchTypeName keys.filter.type).isSome = true := by
  constructor
  · exact fun hne => h.type.resolve_left hne
  · intro hname heq
    rw [heq] at hname
    exact absurd hname (by decide)

/-- A key is taken if its group has a value. -/
theorem Tight.taken_iff (h : keys.Tight) (k : RuleKey) :
    keys.taken k = true ↔ ∃ l, (keys.get l).isSome = true ∧ k.Excludes l := by
  have htype := h.type_ne_iff
  simp only [RuleKey.excludes_iff]
  constructor
  · intro htaken
    cases k <;> simp only [taken, bne_iff_ne, Bool.or_eq_true, Bool.and_eq_true, decide_eq_true_eq] at htaken
    case type => exact ⟨.type, htype.mp htaken, rfl⟩
    case sender => exact ⟨.sender, htaken, rfl⟩
    case destination => exact ⟨.destination, htaken, rfl⟩
    case interface => exact ⟨.interface, htaken, rfl⟩
    case member => exact ⟨.member, htaken, rfl⟩
    case path => exact htaken.elim (fun hpath => ⟨.path, hpath, rfl⟩) fun hpath => ⟨.pathNamespace, hpath, rfl⟩
    case pathNamespace =>
      exact htaken.elim (fun hpath => ⟨.pathNamespace, hpath, rfl⟩) fun hpath => ⟨.path, hpath, rfl⟩
    case arg0namespace =>
      obtain (harg | harg) | harg := htaken
      · exact ⟨.arg0namespace, harg, rfl⟩
      · exact ⟨.arg 0, harg, rfl⟩
      · exact ⟨.argpath 0, harg, rfl⟩
    all_goals
      obtain (⟨hn, harg⟩ | harg) | harg := htaken
      · exact ⟨.arg0namespace, harg, by rw [hn]; rfl⟩
      · exact ⟨.arg _, harg, rfl⟩
      · exact ⟨.argpath _, harg, rfl⟩
  · intro hexists
    obtain ⟨l, hl, hgroup⟩ := hexists
    cases k <;> cases l <;> simp only [RuleKey.group, reduceCtorEq, RuleKey.arg.injEq] at hgroup <;>
      simp_all [taken, get]

/-- Keys hold pairs that exclude each other only if they are the same pair. -/
theorem Records.not_taken (h : keys.Records pairs) :
    keys.taken k = false ↔ ∀ p ∈ pairs, ¬k.Excludes p.1 := by
  rw [Bool.eq_false_iff, ne_eq, h.tight.taken_iff]
  constructor
  · exact fun hnot p hp hexcludes =>
      hnot ⟨p.1, Option.isSome_of_eq_some ((h.get p.1 p.2).mpr hp), hexcludes⟩
  · intro hall hexists
    obtain ⟨l, hl, hexcludes⟩ := hexists
    obtain ⟨v, hv⟩ := Option.isSome_iff_exists.mp hl
    exact hall (l, v) ((h.get l v).mp hv) hexcludes

/-- Keys that hold no pair. -/
theorem records_null : matchKeysNull.Records [] where
  tight := ⟨by decide, by decide, .inl rfl⟩
  get k v := by
    have hget : matchKeysNull.get k = none := by
      cases k
      case type => decide
      all_goals rfl
    simp [hget]

/-- Keys hold one more pair. -/
theorem Records.assigned (h : keys.Records pairs) (hfree : keys.taken k = false) (hnew : Assigned keys keys' k value) :
    keys'.Records (pairs ++ [(k, value)]) where
  tight := hnew.tight h.tight
  get l v := by
    have hpair : (l, v) ∈ pairs ++ [(k, value)] ↔ (l, v) ∈ pairs ∨ l = k ∧ v = value := by
      rw [List.mem_append, List.mem_singleton, Prod.mk.injEq]
    rw [hnew.get, hpair, ← h.get]
    by_cases hl : l = k
    · have hnone : keys.get k ≠ some v :=
        fun hsome => h.not_taken.mp hfree (k, v) ((h.get k v).mp hsome) (.same k)
      rw [if_pos hl, hl, Option.some.injEq]
      simp [hnone, eq_comm]
    · rw [if_neg hl]
      simp [hl]

/-- Arrays that end with their last used slot are determined by their slots. -/
theorem args_ext {args args' : List (Option Bytes)} (h : args.getLast? ≠ some none) (h' : args'.getLast? ≠ some none)
    (hslots : ∀ i, argAt args i = argAt args' i) : args = args' := by
  -- a slot behind one array is empty in both, so the other array does not end with it
  have hle {a b : List (Option Bytes)} (hb : b.getLast? ≠ some none) (hab : ∀ i, argAt a i = argAt b i) :
      b.length ≤ a.length := by
    by_contra hlt
    have hlast : b.length - 1 < b.length := by omega
    have hempty : argAt b (b.length - 1) = none := by
      rw [← hab, argAt, List.getElem?_eq_none (by omega)]
      rfl
    rw [argAt, List.getElem?_eq_getElem hlast] at hempty
    rw [List.getLast?_eq_getElem?, List.getElem?_eq_getElem hlast] at hb
    exact hb (congrArg some hempty)
  have hlength : args.length = args'.length :=
    Nat.le_antisymm (hle h fun i => (hslots i).symm) (hle h' hslots)
  refine List.ext_getElem hlength fun i hi hi' => ?_
  have hslot := hslots i
  rw [argAt, argAt, List.getElem?_eq_getElem hi, List.getElem?_eq_getElem hi'] at hslot
  exact hslot

/-- The name of a type determines it. -/
theorem Tight.type_eq (h : keys.Tight) (h' : keys'.Tight) (hget : keys.get .type = keys'.get .type) :
    keys.filter.type = keys'.filter.type := by
  have hname : matchTypeName keys.filter.type = matchTypeName keys'.filter.type := hget
  obtain hinvalid | hsome := h.type
  · obtain hinvalid' | hsome' := h'.type
    · rw [hinvalid, hinvalid']
    · rw [← hname, hinvalid] at hsome'
      exact absurd hsome' (by decide)
  · obtain ⟨v, hv⟩ := Option.isSome_iff_exists.mp hsome
    have htype := (matchTypeName_eq_some_iff _ v).mp hv
    rw [hname, matchTypeName_eq_some_iff, htype] at hv
    exact Option.some.inj hv

/-- Keys are determined by the values of their keys. -/
theorem Tight.ext (h : keys.Tight) (h' : keys'.Tight) (hget : ∀ k, keys.get k = keys'.get k) : keys = keys' := by
  have hsender : keys.sender = keys'.sender := hget .sender
  refine MatchKeys.ext (MatchFilter.ext (h.type_eq h' (hget .type)) ?_ (hget .interface) (hget .member) (hget .path)
    (args_ext h.args h'.args fun i => hget (.arg i)) (args_ext h.argpaths h'.argpaths fun i => hget (.argpath i)))
    (hget .destination) hsender (hget .pathNamespace) (hget .arg0namespace)
  rw [keys.senderId, keys'.senderId, hsender]

/-- Keys are determined by the pairs they hold, in any order. -/
theorem Records.eq (h : keys.Records pairs) {pairs' : List (RuleKey × Bytes)} (h' : keys'.Records pairs')
    (hpairs : ∀ p, p ∈ pairs ↔ p ∈ pairs') : keys = keys' := by
  refine h.tight.ext h'.tight fun k => Option.ext fun v => ?_
  rw [h.get, hpairs, h'.get]

end MatchKeys

end Pairs

/-! ## Reading a key -/

section ReadKey

variable {s lead key gap body : Bytes} {c : UInt8}

/-- The delimiters in front of a string are skipped. -/
theorem dropWhile_append_of_all {p : UInt8 → Bool} {front back : Bytes} (hfront : ∀ c ∈ front, p c = true)
    (hback : back.head?.any p = false) : (front ++ back).dropWhile p = back := by
  rw [List.dropWhile_append_of_pos hfront]
  cases back with
  | nil => rfl
  | cons c back => exact List.dropWhile_cons_of_neg (ne_true_of_eq_false hback)

/-- A string is cut where the test of its bytes changes. -/
theorem exists_cut (p : UInt8 → Bool) (s : Bytes) :
    ∃ front back, s = front ++ back ∧ (∀ c ∈ front, p c = true) ∧ s.takeWhile p = front ∧ s.dropWhile p = back ∧
      back.head?.any p = false := by
  refine ⟨s.takeWhile p, s.dropWhile p, List.takeWhile_append_dropWhile.symm, fun c hc => List.mem_takeWhile_imp hc,
    rfl, rfl, ?_⟩
  have hhead := List.head?_dropWhile_not p s
  cases h : (s.dropWhile p).head? with
  | none => rfl
  | some c =>
    rw [h] at hhead
    exact hhead

/-- The last step of `match_parse_key`: the equals sign behind a key. -/
def readEquals (key : Bytes) : Bytes → Except MatchError (Bytes × Bytes)
  | c :: rest => if c = byte '=' then .ok (key, rest) else .error .invalid
  | [] => .error .invalid

/-- The steps of `match_parse_key`. -/
theorem matchParseKey_eq (s : Bytes) :
    matchParseKey s =
      if (s.dropWhile isRuleDelimiter).isEmpty then .error .eof
      else if ((s.dropWhile isRuleDelimiter).dropWhile fun c => !isRuleDelimiter c).isEmpty then .error .invalid
      else readEquals ((s.dropWhile isRuleDelimiter).takeWhile fun c => !isRuleDelimiter c)
        (((s.dropWhile isRuleDelimiter).dropWhile fun c => !isRuleDelimiter c).dropWhile isMatchSpace) :=
  rfl

/-- Nothing but delimiters is the end of a rule. -/
theorem matchParseKey_eof (h : ∀ c ∈ s, isRuleDelimiter c = true) : matchParseKey s = .error .eof := by
  have hdrop : s.dropWhile isRuleDelimiter = [] := List.dropWhile_eq_nil_iff.mpr h
  rw [matchParseKey_eq, hdrop]
  exact if_pos rfl

/-- A key is read with its equals sign. -/
theorem matchParseKey_pair (body : Bytes) (hlead : ∀ c ∈ lead, isRuleDelimiter c = true) (hne : key ≠ [])
    (hkey : ∀ c ∈ key, isRuleDelimiter c = false) (hgap : ∀ c ∈ gap, isMatchSpace c = true) :
    matchParseKey (lead ++ (key ++ (gap ++ byte '=' :: body))) = .ok (key, body) := by
  have hkey' : ∀ c ∈ key, (!isRuleDelimiter c) = true := fun c hc => by rw [hkey c hc]; rfl
  obtain ⟨d, key, rfl⟩ := List.exists_cons_of_ne_nil hne
  have hstart : (lead ++ (d :: key ++ (gap ++ byte '=' :: body))).dropWhile isRuleDelimiter =
      d :: key ++ (gap ++ byte '=' :: body) :=
    dropWhile_append_of_all hlead (hkey d List.mem_cons_self)
  have hstop : (gap ++ byte '=' :: body).head?.any (fun c => !isRuleDelimiter c) = false := by
    cases gap with
    | nil => exact (by decide : (!isRuleDelimiter (byte '=')) = false)
    | cons c gap => simp [isRuleDelimiter, hgap c List.mem_cons_self]
  have hback : (d :: key ++ (gap ++ byte '=' :: body)).dropWhile (fun c => !isRuleDelimiter c) = gap ++ byte '=' :: body :=
    dropWhile_append_of_all hkey' hstop
  have hfront : (d :: key ++ (gap ++ byte '=' :: body)).takeWhile (fun c => !isRuleDelimiter c) = d :: key := by
    have hsplit := List.takeWhile_append_dropWhile (p := fun c => !isRuleDelimiter c)
      (l := d :: key ++ (gap ++ byte '=' :: body))
    rw [hback] at hsplit
    exact List.append_cancel_right hsplit
  have hequals : (gap ++ byte '=' :: body).dropWhile isMatchSpace = byte '=' :: body :=
    dropWhile_append_of_all hgap (by decide : isMatchSpace (byte '=') = false)
  rw [matchParseKey_eq, hstart, hback, hfront, hequals, if_neg (by simp), if_neg (by simp)]
  show (if byte '=' = byte '=' then Except.ok (d :: key, body) else .error .invalid) = .ok (d :: key, body)
  exact if_pos rfl

/-- What `match_parse_key` found, by its result. -/
theorem matchParseKey_cases (s : Bytes) :
    (matchParseKey s = .error .eof ∧ ∀ c ∈ s, isRuleDelimiter c = true) ∨ matchParseKey s = .error .invalid ∨
      ∃ lead key gap body, matchParseKey s = .ok (key, body) ∧ s = lead ++ (key ++ (gap ++ byte '=' :: body)) ∧
        (∀ c ∈ lead, isRuleDelimiter c = true) ∧ key ≠ [] ∧ (∀ c ∈ key, isRuleDelimiter c = false) ∧
        ∀ c ∈ gap, isMatchSpace c = true := by
  obtain ⟨lead, start, hs, hlead, -, hstart, hfirst⟩ := exists_cut isRuleDelimiter s
  obtain ⟨key, back, hcut, hkey, hfront, hback, -⟩ := exists_cut (fun c => !isRuleDelimiter c) start
  obtain ⟨gap, tail, hgapped, hgap, -, htail, -⟩ := exists_cut isMatchSpace back
  have hread := matchParseKey_eq s
  rw [hstart, hback, hfront, htail] at hread
  by_cases hend : start = []
  · rw [hend, List.append_nil] at hs
    have hall : ∀ c ∈ s, isRuleDelimiter c = true := hs ▸ hlead
    exact .inl ⟨matchParseKey_eof hall, hall⟩
  rw [if_neg (by rwa [List.isEmpty_iff])] at hread
  refine .inr ?_
  by_cases hlast : back = []
  · exact .inl (hread.trans (if_pos (by rw [hlast]; rfl)))
  rw [if_neg (by rwa [List.isEmpty_iff])] at hread
  cases tail with
  | nil => exact .inl hread
  | cons c body =>
    by_cases hc : c = byte '='
    · have hne : key ≠ [] := by
        intro hnil
        obtain ⟨d, rest, hstarts⟩ := List.exists_cons_of_ne_nil hend
        have hd : isRuleDelimiter d = false := by rw [hstarts] at hfirst; exact hfirst
        rw [hstarts, hnil] at hfront
        rw [List.takeWhile_cons_of_pos (by rw [hd]; rfl)] at hfront
        cases hfront
      refine .inr ⟨lead, key, gap, body, hread.trans (if_pos hc), ?_, hlead, hne, ?_, hgap⟩
      · rw [hs, hcut, hgapped, hc]
      · exact fun c hmem => Bool.not_eq_true' _ ▸ hkey c hmem
    · exact .inl (hread.trans (if_neg hc))

end ReadKey

/-! ## The loop -/

section Loop

variable {s : Bytes} {written written' : List (Bytes × Bytes)} {keys keys' : MatchKeys} {allowEavesdrop : Bool} {fuel : ℕ}
  {earlier pairs : List (RuleKey × Bytes)}

/-- The pairs of a string are written in one way only. -/
theorem RulePairs.unique (h : RulePairs s written) (h' : RulePairs s written') : written = written' := by
  induction h generalizing written' with
  | done hend =>
    have hread := matchParseKey_eof hend
    cases h' with
    | done => rfl
    | pair hlead hne hkey hgap =>
      rw [matchParseKey_pair _ hlead hne hkey hgap] at hread
      cases hread
  | @pair lead key gap body value rest pairs hlead hne hkey hgap hvalue hrest ih =>
    have hread := matchParseKey_pair body hlead hne hkey hgap
    generalize lead ++ (key ++ (gap ++ byte '=' :: body)) = s at h' hread
    cases h' with
    | done hend =>
      rw [matchParseKey_eof hend] at hread
      cases hread
    | pair hlead' hne' hkey' hgap' hvalue' hrest' =>
      rw [matchParseKey_pair _ hlead' hne' hkey' hgap'] at hread
      cases hread
      have hcopied := hvalue.copyValue
      rw [hvalue'.copyValue] at hcopied
      cases hcopied
      rw [ih hrest']

/-- A round that reads a pair. -/
theorem matchKeysParseLoop_pair {key body value rest : Bytes} (hkey : matchParseKey s = .ok (key, body))
    (hvalue : matchCopyValue body false = .ok (value, rest))
    (h : matchKeysAssign keys key value allowEavesdrop = .ok keys') :
    matchKeysParseLoop allowEavesdrop (fuel + 1) keys s = matchKeysParseLoop allowEavesdrop fuel keys' rest := by
  rw [matchKeysParseLoop, hkey]
  dsimp only
  rw [hvalue]
  dsimp only
  rw [h]

/-- The loop records the pairs of a string. -/
theorem matchKeysParseLoop_ok (earlier : List (RuleKey × Bytes)) (hstring : RulePairs s written) (hkept : PairsKept 0 allowEavesdrop written pairs)
    (haccepted : ∀ p ∈ pairs, p.1.accepts p.2 = true)
    (hcompatible : (earlier ++ pairs).Pairwise fun p q => ¬p.1.Excludes q.1) (hkeys : keys.Records earlier)
    (hfuel : s.length < fuel) :
    ∃ keys', matchKeysParseLoop allowEavesdrop fuel keys s = .ok keys' ∧ keys'.Records (earlier ++ pairs) := by
  induction hstring generalizing pairs earlier keys fuel with
  | done hend =>
    cases hkept
    obtain ⟨fuel, rfl⟩ := Nat.exists_eq_add_one_of_ne_zero (Nat.ne_zero_of_lt hfuel)
    refine ⟨keys, ?_, by rwa [List.append_nil]⟩
    rw [matchKeysParseLoop, matchParseKey_eof hend]
  | @pair lead key gap body value rest written hlead hne hkey hgap hvalue hrest ih =>
    obtain ⟨fuel, rfl⟩ := Nat.exists_eq_add_one_of_ne_zero (Nat.ne_zero_of_lt hfuel)
    have hshorter : rest.length < fuel := by
      have hle := hvalue.length_le
      simp only [List.length_append, List.length_cons] at hfuel
      omega
    have hread := matchParseKey_pair body hlead hne hkey hgap
    cases hkept with
    | @cons _ p _ pairs hp hpairs =>
      obtain ⟨k, v⟩ := p
      obtain ⟨hspelled, hmeant⟩ := hp
      obtain rfl : v = value := hmeant
      have hlater := List.pairwise_append.mp hcompatible
      have hfree : keys.taken k = false := hkeys.not_taken.mpr fun q hq hexcludes =>
        hlater.2.2 q hq (k, v) List.mem_cons_self hexcludes.symm
      have hassigned := assignSpec_of_readRuleKey keys v (readRuleKey_eq_some_iff.mpr hspelled) allowEavesdrop
      obtain ⟨-, -, keys', hok, hnew⟩ | ⟨hbad, -⟩ := hassigned
      · rw [matchKeysParseLoop_pair hread hvalue.copyValue hok]
        rw [List.append_cons] at hcompatible ⊢
        exact ih _ hpairs (fun q hq => haccepted q (List.mem_cons_of_mem _ hq)) hcompatible
          (hkeys.assigned hfree hnew) hshorter
      · obtain htaken | hrefused := hbad
        · exact absurd htaken (ne_true_of_eq_false hfree)
        · have haccepts : k.accepts v = true := haccepted (k, v) List.mem_cons_self
          exact absurd haccepts (ne_true_of_eq_false hrefused)
    | eavesdrop hallow hword hpairs =>
      rw [matchKeysParseLoop_pair hread hvalue.copyValue (matchKeysAssign_eavesdrop_of_word keys hallow hword)]
      exact ih _ hpairs haccepted hcompatible hkeys hshorter

/-- Only the pairs of a string are recorded. -/
theorem exists_of_matchKeysParseLoop (h : matchKeysParseLoop allowEavesdrop fuel keys s = .ok keys')
    (hcompatible : earlier.Pairwise fun p q => ¬p.1.Excludes q.1) (hkeys : keys.Records earlier) :
    ∃ written pairs, RulePairs s written ∧ PairsKept 0 allowEavesdrop written pairs ∧
      (∀ p ∈ pairs, p.1.accepts p.2 = true) ∧ ((earlier ++ pairs).Pairwise fun p q => ¬p.1.Excludes q.1) ∧
      keys'.Records (earlier ++ pairs) := by
  induction fuel generalizing keys s earlier with
  | zero => cases h
  | succ fuel ih =>
    obtain ⟨heof, hend⟩ | hinvalid | ⟨lead, key, gap, body, hread, hs, hlead, hne, hkey, hgap⟩ := matchParseKey_cases s
    · rw [matchKeysParseLoop, heof] at h
      cases h
      exact ⟨[], [], .done hend, .nil, by simp, by rwa [List.append_nil], by rwa [List.append_nil]⟩
    · rw [matchKeysParseLoop, hinvalid] at h
      cases h
    cases hvalue : matchCopyValue body false with
    | error e =>
      rw [matchKeysParseLoop, hread] at h
      dsimp only at h
      rw [hvalue] at h
      cases h
    | ok copied =>
      obtain ⟨value, rest⟩ := copied
      have hreads := (matchCopyValue_eq_ok_iff body value rest).mp hvalue
      cases hassign : matchKeysAssign keys key value allowEavesdrop with
      | error e =>
        rw [matchKeysParseLoop, hread] at h
        dsimp only at h
        rw [hvalue] at h
        dsimp only at h
        rw [hassign] at h
        cases h
      | ok keys₁ =>
        rw [matchKeysParseLoop_pair hread hvalue hassign] at h
        cases hk : readRuleKey key with
        | none =>
          obtain hbad | ⟨rfl, hallow, hword, hok⟩ := matchKeysAssign_cases_none keys value hk allowEavesdrop
          · rw [hassign] at hbad
            cases hbad
          · rw [hassign] at hok
            cases hok
            obtain ⟨written, pairs, hpairs, hkept, hall⟩ := ih h hcompatible hkeys
            exact ⟨(lit "eavesdrop", value) :: written, pairs, hs ▸ .pair hlead hne hkey hgap hreads hpairs,
              .eavesdrop hallow hword hkept, hall⟩
        | some k =>
          obtain ⟨hfree, haccepts, keys₂, hok, hnew⟩ | ⟨-, hbad⟩ := assignSpec_of_readRuleKey keys value hk allowEavesdrop
          · rw [hassign] at hok
            cases hok
            have hcompatible₁ : (earlier ++ [(k, value)]).Pairwise fun p q => ¬p.1.Excludes q.1 := by
              refine List.pairwise_append.mpr ⟨hcompatible, List.pairwise_singleton _ _, fun p hp q hq => ?_⟩
              rw [List.mem_singleton.mp hq]
              exact fun hexcludes => hkeys.not_taken.mp hfree p hp hexcludes.symm
            obtain ⟨written, pairs, hpairs, hkept, haccepted, hall, hrecords⟩ :=
              ih h hcompatible₁ (hkeys.assigned hfree hnew)
            rw [List.append_assoc, List.singleton_append] at hall hrecords
            exact ⟨(key, value) :: written, (k, value) :: pairs, hs ▸ .pair hlead hne hkey hgap hreads hpairs,
              .cons ⟨spelled_of_readRuleKey hk, rfl⟩ hkept, List.forall_mem_cons.mpr ⟨haccepts, haccepted⟩, hall,
              hrecords⟩
          · rw [hassign] at hbad
            cases hbad

/-- A key and a value that cannot be assigned are invalid. -/
theorem matchKeysAssign_error {key value : Bytes} {e : MatchError}
    (h : matchKeysAssign keys key value allowEavesdrop = .error e) : e = .invalid := by
  cases hk : readRuleKey key with
  | none =>
    obtain hbad | ⟨-, -, -, hok⟩ := matchKeysAssign_cases_none keys value hk allowEavesdrop
    · exact (Except.error.inj (hbad.symm.trans h)).symm
    · cases hok.symm.trans h
  | some k =>
    obtain ⟨-, -, keys', hok, -⟩ | ⟨-, hbad⟩ := assignSpec_of_readRuleKey keys value hk allowEavesdrop
    · cases hok.symm.trans h
    · exact (Except.error.inj (hbad.symm.trans h)).symm

/-- A string that is not accepted is invalid. -/
theorem matchKeysParse_error {e : MatchError} (h : matchKeysParse s allowEavesdrop = .error e) : e = .invalid := by
  have hloop : ∀ (fuel : ℕ) (keys : MatchKeys) (s : Bytes),
      matchKeysParseLoop allowEavesdrop fuel keys s = .error e → e = .invalid := by
    intro fuel
    induction fuel with
    | zero =>
      intro keys s h
      cases h
      rfl
    | succ fuel ih =>
      intro keys s h
      rw [matchKeysParseLoop] at h
      obtain ⟨heof, -⟩ | hinvalid | ⟨-, key, -, body, hread, -⟩ := matchParseKey_cases s
      · rw [heof] at h
        cases h
      · rw [hinvalid] at h
        cases h
        rfl
      · rw [hread] at h
        dsimp only at h
        cases hvalue : matchCopyValue body false with
        | error e' =>
          rw [hvalue] at h
          cases h
          exact ((matchCopyValue_eq_error_iff body e).mp hvalue).1
        | ok copied =>
          rw [hvalue] at h
          dsimp only at h
          cases hassign : matchKeysAssign keys key copied.1 allowEavesdrop with
          | error e' =>
            rw [hassign] at h
            cases h
            exact matchKeysAssign_error hassign
          | ok keys₁ =>
            rw [hassign] at h
            exact ih keys₁ copied.2 h
  exact hloop _ _ _ h

end Loop

/-! ## Rule strings -/

section Rules

variable {s : Bytes} {keys : MatchKeys} {allowEavesdrop : Bool} {key value : Bytes} {k : RuleKey}
  {pairs : List (RuleKey × Bytes)}

/-- The parser accepts the rule strings with numbers of any two digits at most, and the keys hold their pairs. -/
theorem matchKeysParse_eq_ok_iff (s : Bytes) (allowEavesdrop : Bool) (keys : MatchKeys) :
    matchKeysParse s allowEavesdrop = .ok keys ↔ ∃ pairs, RuleString 0 allowEavesdrop s pairs ∧ keys.Records pairs := by
  constructor
  · intro h
    obtain ⟨written, pairs, hpairs, hspelled, haccepted, hcompatible, hrecords⟩ :=
      exists_of_matchKeysParseLoop h .nil MatchKeys.records_null
    rw [List.nil_append] at hcompatible hrecords
    exact ⟨pairs, ⟨⟨written, hpairs, hspelled⟩, haccepted, hcompatible⟩, hrecords⟩
  · intro h
    obtain ⟨pairs, ⟨⟨written, hpairs, hspelled⟩, haccepted, hcompatible⟩, hrecords⟩ := h
    obtain ⟨keys', hok, hrecords'⟩ := matchKeysParseLoop_ok [] hpairs hspelled haccepted hcompatible
      MatchKeys.records_null (Nat.lt_succ_self s.length)
    exact hrecords'.eq hrecords (fun p => Iff.rfl) ▸ hok

/-- A rule string is accepted. -/
theorem RuleString.exists_keys (h : RuleString 0 allowEavesdrop s pairs) :
    ∃ keys, matchKeysParse s allowEavesdrop = .ok keys ∧ keys.Records pairs := by
  obtain ⟨⟨written, hpairs, hspelled⟩, haccepted, hcompatible⟩ := h
  exact matchKeysParseLoop_ok [] hpairs hspelled haccepted hcompatible MatchKeys.records_null
    (Nat.lt_succ_self s.length)

/-- Keys are what a rule string means: they hold exactly its pairs. -/
def RuleMeans (s : Bytes) (allowEavesdrop : Bool) (keys : MatchKeys) : Prop :=
  ∃ pairs, RuleString 0 allowEavesdrop s pairs ∧ keys.Records pairs

/-- The parser decides what a string means. -/
instance (s : Bytes) (allowEavesdrop : Bool) (keys : MatchKeys) : Decidable (RuleMeans s allowEavesdrop keys) :=
  decidable_of_iff _ (matchKeysParse_eq_ok_iff s allowEavesdrop keys)

/-- Strings mean the same exactly if they have the same pairs, in any order and any notation. -/
theorem ruleMeans_iff {s' : Bytes} {allowEavesdrop' : Bool} {pairs' : List (RuleKey × Bytes)}
    (hkeys : RuleMeans s allowEavesdrop keys) (h : RuleString 0 allowEavesdrop s pairs)
    (h' : RuleString 0 allowEavesdrop' s' pairs') :
    RuleMeans s' allowEavesdrop' keys ↔ ∀ p, p ∈ pairs ↔ p ∈ pairs' := by
  have hrecords {t : Bytes} {allow : Bool} {ps : List (RuleKey × Bytes)} (hmeans : RuleMeans t allow keys)
      (ht : RuleString 0 allow t ps) : keys.Records ps := by
    obtain ⟨keys₁, hok, hrecords⟩ := ht.exists_keys
    have hparsed := (matchKeysParse_eq_ok_iff t allow keys).mpr hmeans
    rw [hok] at hparsed
    exact Except.ok.inj hparsed ▸ hrecords
  have hheld := hrecords hkeys h
  constructor
  · intro hmeans p
    rw [← hheld.get p.1 p.2, ← (hrecords hmeans h').get p.1 p.2]
  · exact fun hpairs => ⟨pairs', h', hheld.tight, fun k v => by rw [hheld.get, hpairs]⟩

/-- A key of an argument without the number of the argument. -/
def Numberless (key : Bytes) : Prop := key = lit "arg" ∨ key = lit "argpath"

instance (key : Bytes) : Decidable (Numberless key) := inferInstanceAs (Decidable (_ ∨ _))

/-- A number with a digit. -/
theorem argDigits_one_iff {n : ℕ} {digits : Bytes} : ArgDigits 1 n digits ↔ ArgDigits 0 n digits ∧ digits ≠ [] := by
  constructor
  · exact fun h => ⟨{ h with fewest_le := Nat.zero_le _ }, List.ne_nil_of_length_pos h.fewest_le⟩
  · exact fun h => { h.1 with fewest_le := List.length_pos_of_ne_nil h.2 }

/-- Asking for a digit refuses exactly the keys that have none. -/
theorem spelled_one_iff : k.Spelled 1 key ↔ k.Spelled 0 key ∧ ¬Numberless key := by
  have hliteral {name : Bytes} (hname : ¬Numberless name) : key = name ↔ key = name ∧ ¬Numberless key :=
    ⟨fun h => ⟨h, h ▸ hname⟩, fun h => h.1⟩
  cases k with
  | arg n =>
    constructor
    · intro h
      obtain ⟨digits, hnumber, rfl⟩ := h
      obtain ⟨hnumber, hne⟩ := argDigits_one_iff.mp hnumber
      refine ⟨⟨digits, hnumber, rfl⟩, fun hnone => ?_⟩
      obtain hnone | hnone := hnone
      · exact hne (List.append_right_eq_self.mp hnone)
      · have hpath : digits = lit "path" := List.append_cancel_left (hnone : lit "arg" ++ digits = lit "arg" ++ lit "path")
        exact absurd (hnumber.digit (byte 'p') (hpath ▸ (by decide))) (by decide)
    · intro h
      obtain ⟨⟨digits, hnumber, rfl⟩, hnone⟩ := h
      exact ⟨digits, argDigits_one_iff.mpr ⟨hnumber, fun hnil => hnone (.inl (by rw [hnil, List.append_nil]))⟩, rfl⟩
  | argpath n =>
    constructor
    · intro h
      obtain ⟨digits, hnumber, rfl⟩ := h
      obtain ⟨hnumber, hne⟩ := argDigits_one_iff.mp hnumber
      refine ⟨⟨digits, hnumber, rfl⟩, fun hnone => ?_⟩
      obtain hnone | hnone := hnone
      · have hnil : digits ++ lit "path" = [] := List.append_right_eq_self.mp hnone
        exact hne (List.append_eq_nil_iff.mp hnil).1
      · have hpath : digits ++ lit "path" = lit "path" :=
          List.append_cancel_left (hnone : lit "arg" ++ (digits ++ lit "path") = lit "arg" ++ lit "path")
        exact hne (List.append_left_eq_self.mp hpath)
    · intro h
      obtain ⟨⟨digits, hnumber, rfl⟩, hnone⟩ := h
      exact ⟨digits, argDigits_one_iff.mpr ⟨hnumber, fun hnil => hnone (.inr (by rw [hnil]; rfl))⟩, rfl⟩
  | type => exact hliteral (by decide)
  | sender => exact hliteral (by decide)
  | destination => exact hliteral (by decide)
  | interface => exact hliteral (by decide)
  | member => exact hliteral (by decide)
  | path => exact hliteral (by decide)
  | pathNamespace => exact hliteral (by decide)
  | arg0namespace => exact hliteral (by decide)

/-- The pairs of a string with a digit in every number. -/
theorem pairsKept_one_iff {written : List (Bytes × Bytes)} :
    PairsKept 1 allowEavesdrop written pairs ↔
      PairsKept 0 allowEavesdrop written pairs ∧ ∀ p ∈ written, ¬Numberless p.1 := by
  constructor
  · intro h
    induction h with
    | nil => exact ⟨.nil, by simp⟩
    | cons hp hrest ih =>
      obtain ⟨hspelled, hnumber⟩ := spelled_one_iff.mp hp.1
      exact ⟨.cons ⟨hspelled, hp.2⟩ ih.1, List.forall_mem_cons.mpr ⟨hnumber, ih.2⟩⟩
    | eavesdrop hallow hword hrest ih =>
      have hnumber : ¬Numberless (lit "eavesdrop") := by decide
      exact ⟨.eavesdrop hallow hword ih.1, List.forall_mem_cons.mpr ⟨hnumber, ih.2⟩⟩
  · intro h
    obtain ⟨hkept, hnumbers⟩ := h
    induction hkept with
    | nil => exact .nil
    | cons hp hrest ih =>
      obtain ⟨hnumber, hnumbers⟩ := List.forall_mem_cons.mp hnumbers
      exact .cons ⟨spelled_one_iff.mpr ⟨hp.1, hnumber⟩, hp.2⟩ (ih hnumbers)
    | eavesdrop hallow hword hrest ih =>
      exact .eavesdrop hallow hword (ih (List.forall_mem_cons.mp hnumbers).2)

/-- Some pair of a string has a key of an argument without its number. -/
def HasNumberless (s : Bytes) : Prop := ∃ written, RulePairs s written ∧ ∃ p ∈ written, Numberless p.1

/-- The strings of the grammar with a digit in every number. -/
theorem ruleString_one_iff :
    RuleString 1 allowEavesdrop s pairs ↔ RuleString 0 allowEavesdrop s pairs ∧ ¬HasNumberless s := by
  constructor
  · intro h
    obtain ⟨⟨written, hpairs, hspelled⟩, haccepted, hcompatible⟩ := h
    obtain ⟨hspelled, hnumbers⟩ := pairsKept_one_iff.mp hspelled
    refine ⟨⟨⟨written, hpairs, hspelled⟩, haccepted, hcompatible⟩, fun hnone => ?_⟩
    obtain ⟨written', hpairs', p, hp, hnone⟩ := hnone
    exact hnumbers p (hpairs.unique hpairs' ▸ hp) hnone
  · intro h
    obtain ⟨⟨⟨written, hpairs, hspelled⟩, haccepted, hcompatible⟩, hnumbers⟩ := h
    have hall : ∀ p ∈ written, ¬Numberless p.1 := fun p hp hnone => hnumbers ⟨written, hpairs, p, hp, hnone⟩
    exact ⟨⟨written, hpairs, pairsKept_one_iff.mpr ⟨hspelled, hall⟩⟩, haccepted, hcompatible⟩

/-- The parser accepts a string exactly if the grammar does, and the keys hold exactly its pairs. -/
def ParsesRule (s : Bytes) : Prop :=
  ((∃ keys, matchKeysParse s false = .ok keys) ↔ ∃ pairs, RuleString 1 false s pairs) ∧
    ∀ keys, matchKeysParse s false = .ok keys → ∃ pairs, RuleString 1 false s pairs ∧ keys.Records pairs

/-- The parser fails the grammar exactly on strings that would be rules if a missing number were zero. -/
theorem parsesRule_iff (s : Bytes) : ParsesRule s ↔ ¬((∃ pairs, RuleString 0 false s pairs) ∧ HasNumberless s) := by
  constructor
  · intro h hlenient
    obtain ⟨hparses, -⟩ := h
    obtain ⟨⟨pairs, hstring⟩, hnumberless⟩ := hlenient
    obtain ⟨keys, hok, -⟩ := hstring.exists_keys
    obtain ⟨pairs', hstring'⟩ := hparses.mp ⟨keys, hok⟩
    exact (ruleString_one_iff.mp hstring').2 hnumberless
  · intro h
    have hrecorded (keys : MatchKeys) (hok : matchKeysParse s false = .ok keys) :
        ∃ pairs, RuleString 1 false s pairs ∧ keys.Records pairs := by
      obtain ⟨pairs, hstring, hrecords⟩ := (matchKeysParse_eq_ok_iff s false keys).mp hok
      exact ⟨pairs, ruleString_one_iff.mpr ⟨hstring, fun hnone => h ⟨⟨pairs, hstring⟩, hnone⟩⟩, hrecords⟩
    refine ⟨⟨?_, ?_⟩, hrecorded⟩
    · intro hexists
      obtain ⟨keys, hok⟩ := hexists
      obtain ⟨pairs, hstring, -⟩ := hrecorded keys hok
      exact ⟨pairs, hstring⟩
    · intro hexists
      obtain ⟨pairs, hstring⟩ := hexists
      obtain ⟨keys, hok, -⟩ := (ruleString_one_iff.mp hstring).1.exists_keys
      exact ⟨keys, hok⟩

/-- `arg='x'` is taken as a rule for the first argument. -/
theorem not_parsesRule_arg : ¬ParsesRule (lit "arg='x'") := by
  intro h
  have hvalue : ReadsValue (lit "'x'") (lit "x") [] :=
    ⟨[], .cons (.quoted (lit "x") [] (by decide +kernel)) (.nil []), .string⟩
  have hlenient : RulePairs ([] ++ (lit "arg" ++ ([] ++ byte '=' :: lit "'x'"))) [(lit "arg", lit "x")] :=
    .pair (by simp) (by decide) (by decide +kernel) (by simp) hvalue (.done (by simp))
  have hwritten : RulePairs (lit "arg='x'") [(lit "arg", lit "x")] := hlenient
  have hspelled : PairSpelled 0 (lit "arg", lit "x") (.arg 0, lit "x") :=
    ⟨⟨[], ⟨by simp, Nat.le_refl 0, by decide, rfl, by decide⟩, rfl⟩, rfl⟩
  have hstring : RuleString 0 false (lit "arg='x'") [(.arg 0, lit "x")] :=
    ⟨⟨_, hwritten, .cons hspelled .nil⟩, by simp [RuleKey.accepts], List.pairwise_singleton _ _⟩
  obtain ⟨keys, hok, -⟩ := hstring.exists_keys
  obtain ⟨pairs, hone⟩ := h.1.mp ⟨keys, hok⟩
  exact (ruleString_one_iff.mp hone).2 ⟨_, hwritten, _, List.mem_singleton_self _, .inl rfl⟩

end Rules

end DbusBroker
