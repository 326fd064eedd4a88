import DbusBroker.Dbus.Dvar

/-!
# The grammar of types

The types of D-Bus as trees, and the signatures that `c_dvar_verify_type` accepts. It reads a
signature with a stack of the containers that are open. A complete type in front of a container
is one more member of it, and an array ends with its element.

A struct has a first member and a dict entry a basic key, so trees of other shapes cannot be
built. The limits on nesting are those of the code: arrays and tuples count apart.
-/

namespace DbusBroker

/-- A basic type: its character. -/
structure BasicType where
  char : UInt8
  basic : cDvarBasic.contains char = true

/-- A single complete type. A dict is an array of dict entries. -/
inductive DType where
  | basic (type : BasicType)
  | variant
  | array (element : DType)
  | dict (key : BasicType) (value : DType)
  | struct (first : DType) (rest : List DType)

mutual

/-- The signature of a type. -/
def DType.signature : DType → Bytes
  | .basic type => [type.char]
  | .variant => [byte 'v']
  | .array element => byte 'a' :: element.signature
  | .dict key value => byte 'a' :: byte '\x7b' :: key.char :: (value.signature ++ [byte '\x7d'])
  | .struct first rest => byte '(' :: (first.signature ++ signatures rest ++ [byte ')'])

/-- The signature of several types. -/
def DType.signatures : List DType → Bytes
  | [] => []
  | type :: types => type.signature ++ signatures types

end

mutual

/-- The nesting of arrays in a type. -/
def DType.arrays : DType → ℕ
  | .basic _ => 0
  | .variant => 0
  | .array element => element.arrays + 1
  | .dict _ value => value.arrays + 1
  | .struct first rest => max first.arrays (arraysOf rest)

/-- The nesting of arrays in several types. -/
def DType.arraysOf : List DType → ℕ
  | [] => 0
  | type :: types => max type.arrays (arraysOf types)

end

mutual

/-- The nesting of structs and dict entries in a type. -/
def DType.tuples : DType → ℕ
  | .basic _ => 0
  | .variant => 0
  | .array element => element.tuples
  | .dict _ value => value.tuples + 1
  | .struct first rest => max first.tuples (tuplesOf rest) + 1

/-- The nesting of structs and dict entries in several types. -/
def DType.tuplesOf : List DType → ℕ
  | [] => 0
  | type :: types => max type.tuples (tuplesOf types)

end

/-- A type within the limits of the protocol. -/
structure DType.Fits (type : DType) : Prop where
  arrays : type.arrays ≤ cDvarTypeDepthMax / 2
  tuples : type.tuples ≤ cDvarTypeDepthMax / 2
  length : type.signature.length ≤ cDvarTypeLengthMax

/-- Induction over types and lists of types. -/
theorem DType.induct {P : DType → Prop} {Q : List DType → Prop} (hbasic : ∀ type, P (.basic type)) (hvariant : P .variant)
    (harray : ∀ element, P element → P (.array element)) (hdict : ∀ key value, P value → P (.dict key value))
    (hstruct : ∀ first rest, P first → Q rest → P (.struct first rest)) (hnil : Q [])
    (hcons : ∀ type types, P type → Q types → Q (type :: types)) : (∀ type, P type) ∧ ∀ types, Q types :=
  ⟨fun type => @DType.rec P Q hbasic hvariant harray hdict hstruct hnil hcons type,
    fun types => @DType.rec_1 P Q hbasic hvariant harray hdict hstruct hnil hcons types⟩

/-! ## Characters -/

/-- What the code distinguishes about a character of a basic type. -/
theorem BasicType.char_ne (type : BasicType) :
    type.char ≠ byte 'a' ∧ type.char ≠ byte '(' ∧ type.char ≠ byte ')' ∧ type.char ≠ byte '\x7b' ∧
      type.char ≠ byte '\x7d' ∧ type.char ≠ byte 'v' := by
  have hall : ∀ c ∈ cDvarBasic, c ≠ byte 'a' ∧ c ≠ byte '(' ∧ c ≠ byte ')' ∧ c ≠ byte '\x7b' ∧
      c ≠ byte '\x7d' ∧ c ≠ byte 'v' := by decide +kernel
  exact hall type.char (List.contains_iff_mem.mp type.basic)

/-- The first character of a type closes nothing and opens no dict entry. -/
theorem DType.signature_eq_cons (type : DType) : ∃ c rest, type.signature = c :: rest ∧
    c ≠ byte ')' ∧ c ≠ byte '\x7b' ∧ c ≠ byte '\x7d' := by
  cases type with
  | basic type => exact ⟨_, _, by rw [signature], type.char_ne.2.2.1, type.char_ne.2.2.2.1, type.char_ne.2.2.2.2.1⟩
  | variant => exact ⟨_, _, by rw [signature], by decide, by decide, by decide⟩
  | array element => exact ⟨_, _, by rw [signature], by decide, by decide, by decide⟩
  | dict key value => exact ⟨_, _, by rw [signature], by decide, by decide, by decide⟩
  | struct first rest => exact ⟨_, _, by rw [signature], by decide, by decide, by decide⟩

theorem DType.signature_length_pos (type : DType) : 0 < type.signature.length := by
  obtain ⟨c, rest, hsignature, -⟩ := type.signature_eq_cons
  rw [hsignature]
  exact Nat.succ_pos _

/-! ## Rounds of the loop -/

/-- What follows on a complete type: the arrays around it end with it. `before` is what was read. -/
def verifyFinish (rest before containers : Bytes) : Option ℕ :=
  match containers.dropWhile (· = byte 'a') with
  | [] => some before.length
  | open' => cDvarVerifyType rest before open'

/-- The check on a member of a dict entry. -/
def EntryAllows (c : UInt8) (before containers : Bytes) : Prop :=
  containers.head? = some (byte '\x7b') → cDvarVerifyDict c before = true

section

variable {c : UInt8} {rest before containers : Bytes}

@[simp] theorem verifyFinish_array : verifyFinish rest before (byte 'a' :: containers) = verifyFinish rest before containers := by
  rw [verifyFinish, verifyFinish, List.dropWhile_cons, if_pos (by decide)]

theorem verifyFinish_nil : verifyFinish rest before [] = some before.length := rfl

theorem verifyFinish_tuple (h : c ≠ byte 'a') :
    verifyFinish rest before (c :: containers) = cDvarVerifyType rest before (c :: containers) := by
  rw [verifyFinish, List.dropWhile_cons, if_neg (by simpa using h)]

/-- One round, with its last part named. -/
theorem cDvarVerifyType_cons : cDvarVerifyType (c :: rest) before containers =
    if cDvarTypeLengthMax ≤ before.length then none
    else if containers.head? = some (byte '\x7b') && !cDvarVerifyDict c before then none
    else if c = byte '\x7b' && containers.head? ≠ some (byte 'a') then none
    else if c = byte '\x7b' || c = byte '(' || c = byte 'a' then
      if cDvarVerifyDepth (c :: containers) then cDvarVerifyType rest (c :: before) (c :: containers) else none
    else if c = byte '\x7d' || c = byte ')' then
      if containers.head? ≠ some (if c = byte '\x7d' then byte '\x7b' else byte '(') then none
      else if before[0]? = some (byte '(') then none
      else verifyFinish rest (c :: before) containers.tail
    else if cDvarBasic.contains c || c = byte 'v' then verifyFinish rest (c :: before) containers
    else none := by
  rw [cDvarVerifyType]
  rfl

/-- Only the members of a dict entry are checked. -/
theorem entryAllows_of_ne {d : UInt8} (h : d ≠ byte '\x7b') : EntryAllows c before (d :: containers) :=
  fun hhead => absurd (Option.some.inj hhead) h

/-- A round that takes a character has passed the checks in front. -/
theorem cDvarVerifyType_eq_some {n : ℕ} (h : cDvarVerifyType (c :: rest) before containers = some n) :
    before.length < cDvarTypeLengthMax ∧ EntryAllows c before containers ∧
      (c = byte '\x7b' → containers.head? = some (byte 'a')) := by
  rw [cDvarVerifyType_cons] at h
  refine ⟨?_, fun hhead => ?_, fun hc => ?_⟩
  · by_contra hlength
    rw [if_pos (by omega)] at h
    cases h
  · by_contra hentry
    rw [Bool.not_eq_true] at hentry
    simp [hhead, hentry] at h
  · by_contra hhead
    simp [hc, hhead] at h

/-- The rounds that pass the checks in front. -/
theorem cDvarVerifyType_step (hlength : before.length < cDvarTypeLengthMax) (hentry : EntryAllows c before containers)
    (hdict : c = byte '\x7b' → containers.head? = some (byte 'a')) : cDvarVerifyType (c :: rest) before containers =
    if c = byte '\x7b' || c = byte '(' || c = byte 'a' then
      if cDvarVerifyDepth (c :: containers) then cDvarVerifyType rest (c :: before) (c :: containers) else none
    else if c = byte '\x7d' || c = byte ')' then
      if containers.head? ≠ some (if c = byte '\x7d' then byte '\x7b' else byte '(') then none
      else if before[0]? = some (byte '(') then none
      else verifyFinish rest (c :: before) containers.tail
    else if cDvarBasic.contains c || c = byte 'v' then verifyFinish rest (c :: before) containers
    else none := by
  have hentry' : ¬ (containers.head? = some (byte '\x7b') && !cDvarVerifyDict c before) = true := by
    intro hfails
    obtain ⟨hhead, hfalse⟩ := (Bool.and_eq_true _ _).mp hfails
    rw [hentry (of_decide_eq_true hhead)] at hfalse
    cases hfalse
  have hdict' : ¬ (c = byte '\x7b' && containers.head? ≠ some (byte 'a')) = true := by
    intro hfails
    obtain ⟨hc, hhead⟩ := (Bool.and_eq_true _ _).mp hfails
    exact of_decide_eq_true hhead (hdict (of_decide_eq_true hc))
  rw [cDvarVerifyType_cons, if_neg (by omega), if_neg hentry', if_neg hdict']

theorem cDvarVerifyType_basic (type : BasicType) (hlength : before.length < cDvarTypeLengthMax)
    (hentry : EntryAllows type.char before containers) :
    cDvarVerifyType (type.char :: rest) before containers = verifyFinish rest (type.char :: before) containers := by
  obtain ⟨ha, ho, hc, hb, he, -⟩ := type.char_ne
  rw [cDvarVerifyType_step hlength hentry fun h => absurd h hb, if_neg (by simp [ha, ho, hb]), if_neg (by simp [hc, he]),
    if_pos (by rw [type.basic, Bool.true_or])]

theorem cDvarVerifyType_variant (hlength : before.length < cDvarTypeLengthMax)
    (hentry : EntryAllows (byte 'v') before containers) :
    cDvarVerifyType (byte 'v' :: rest) before containers = verifyFinish rest (byte 'v' :: before) containers := by
  rw [cDvarVerifyType_step hlength hentry fun h => absurd h (by decide), if_neg (by decide), if_neg (by decide),
    if_pos (by decide)]

theorem cDvarVerifyType_opening (hc : c = byte 'a' ∨ c = byte '(' ∨ c = byte '\x7b')
    (hlength : before.length < cDvarTypeLengthMax) (hentry : EntryAllows c before containers)
    (hdict : c = byte '\x7b' → containers.head? = some (byte 'a')) :
    cDvarVerifyType (c :: rest) before containers =
      if cDvarVerifyDepth (c :: containers) then cDvarVerifyType rest (c :: before) (c :: containers) else none := by
  rw [cDvarVerifyType_step hlength hentry hdict, if_pos]
  rcases hc with rfl | rfl | rfl <;> decide

theorem cDvarVerifyType_struct (hlength : before.length < cDvarTypeLengthMax) :
    cDvarVerifyType (byte ')' :: rest) before (byte '(' :: containers) =
      if before[0]? = some (byte '(') then none else verifyFinish rest (byte ')' :: before) containers := by
  rw [cDvarVerifyType_step hlength (entryAllows_of_ne (by decide)) fun h => absurd h (by decide), if_neg (by decide),
    if_pos (by decide)]
  rfl

theorem cDvarVerifyType_entry (hlength : before.length < cDvarTypeLengthMax)
    (hentry : cDvarVerifyDict (byte '\x7d') before = true) (hbefore : before[0]? ≠ some (byte '(')) :
    cDvarVerifyType (byte '\x7d' :: rest) before (byte '\x7b' :: containers) =
      verifyFinish rest (byte '\x7d' :: before) containers := by
  rw [cDvarVerifyType_step hlength (fun _ => hentry) fun h => absurd h (by decide), if_neg (by decide),
    if_pos (by decide), if_neg (by simp), if_neg hbefore]
  rfl

end

/-! ## Depth -/

/-- The arrays among the containers that are open. -/
def openArrays (containers : Bytes) : ℕ := (containers.filter (· = byte 'a')).length

/-- The structs and dict entries among the containers that are open. -/
def openTuples (containers : Bytes) : ℕ := (containers.filter (· ≠ byte 'a')).length

theorem openArrays_cons (c : UInt8) (containers : Bytes) :
    openArrays (c :: containers) = if c = byte 'a' then openArrays containers + 1 else openArrays containers := by
  by_cases hc : c = byte 'a' <;> simp [openArrays, hc]

theorem openTuples_cons (c : UInt8) (containers : Bytes) :
    openTuples (c :: containers) = if c = byte 'a' then openTuples containers else openTuples containers + 1 := by
  by_cases hc : c = byte 'a' <;> simp [openTuples, hc]

/-- The limit on the total depth follows from the two others. -/
theorem cDvarVerifyDepth_iff (containers : Bytes) : cDvarVerifyDepth containers = true ↔
    openArrays containers ≤ cDvarTypeDepthMax / 2 ∧ openTuples containers ≤ cDvarTypeDepthMax / 2 := by
  have hsum : containers.length = openArrays containers + openTuples containers := by
    have hlength := List.length_eq_length_filter_add (l := containers) (· = byte 'a')
    simpa [openArrays, openTuples] using hlength
  have htuples : openTuples containers = (containers.filter (· ≠ byte 'a')).length := rfl
  rw [cDvarVerifyDepth, ← htuples, cDvarTypeDepthMax]
  simp only [Bool.and_eq_true, decide_eq_true_eq]
  omega

/-! ## Accepted signatures -/

/-- What stands in front of the end of a tuple: a member, not an opening bracket with or without a key. -/
structure Settled (before : Bytes) : Prop where
  member : before[0]? ≠ some (byte '(')
  key : before[0]? ≠ some (byte '\x7b')
  value : before[1]? ≠ some (byte '\x7b')

theorem settled_cons {c : UInt8} {before : Bytes} (h : c ≠ byte '(') (h' : c ≠ byte '\x7b')
    (hbefore : before[0]? ≠ some (byte '\x7b')) : Settled (c :: before) :=
  ⟨by simpa using h, by simpa using h', by simpa using hbefore⟩

theorem settled_signature : (∀ (type : DType) (before : Bytes), before[0]? ≠ some (byte '\x7b') →
      Settled (type.signature.reverse ++ before)) ∧
    ∀ (types : List DType) (before : Bytes), Settled before → Settled ((DType.signatures types).reverse ++ before) := by
  refine DType.induct (fun type before h => ?_) (fun before h => ?_) (fun element ih before h => ?_)
    (fun key value ih before h => ?_) (fun first rest ihFirst ihRest before h => ?_) (fun before h => ?_)
    (fun type types ih ihTypes before h => ?_)
  · exact settled_cons type.char_ne.2.1 type.char_ne.2.2.2.1 h
  · exact settled_cons (by decide) (by decide) h
  · rw [DType.signature, List.reverse_cons, List.append_assoc]
    exact ih _ (by simp; decide)
  · simp only [DType.signature, List.reverse_cons, List.reverse_append, List.reverse_nil, List.nil_append,
      List.append_assoc, List.cons_append]
    exact settled_cons (by decide) (by decide) (ih _ (by simpa using key.char_ne.2.2.2.1)).key
  · simp only [DType.signature, List.reverse_cons, List.reverse_append, List.reverse_nil, List.nil_append,
      List.append_assoc, List.cons_append]
    exact settled_cons (by decide) (by decide) (ihRest _ (ihFirst _ (by simp; decide))).key
  · exact h
  · rw [DType.signatures, List.reverse_append, List.append_assoc]
    exact ihTypes _ (ih _ h.key)

section

variable {rest before containers : Bytes}

/-- A tuple ends behind a member. -/
theorem cDvarVerifyType_structEnd (hlength : before.length < cDvarTypeLengthMax) (hbefore : Settled before) :
    cDvarVerifyType (byte ')' :: rest) before (byte '(' :: containers) =
      verifyFinish rest (byte ')' :: before) containers := by
  rw [cDvarVerifyType_struct hlength, if_neg hbefore.member]

/-- A dict entry ends behind its second member. -/
theorem cDvarVerifyType_entryEnd (hlength : before.length < cDvarTypeLengthMax) (hbefore : Settled before) :
    cDvarVerifyType (byte '\x7d' :: rest) before (byte '\x7b' :: containers) =
      verifyFinish rest (byte '\x7d' :: before) containers := by
  refine cDvarVerifyType_entry hlength ?_ hbefore.member
  rw [cDvarVerifyDict, if_neg hbefore.key, if_neg hbefore.value]
  exact decide_eq_true rfl

end

/-- The first member of a dict entry is basic, and there is a second one. -/
theorem entryAllows_key (key : BasicType) {before containers : Bytes} :
    EntryAllows key.char (byte '\x7b' :: before) containers := by
  intro _
  rw [cDvarVerifyDict, List.getElem?_cons_zero, if_pos rfl]
  exact key.basic

theorem entryAllows_value (key : BasicType) {value : DType} {before containers : Bytes} {c : UInt8}
    (hc : c ∈ value.signature.head?) : EntryAllows c (key.char :: byte '\x7b' :: before) containers := by
  intro _
  obtain ⟨d, rest, hsignature, -, -, hd⟩ := value.signature_eq_cons
  rw [hsignature, List.head?_cons, Option.mem_some_iff] at hc
  rw [cDvarVerifyDict, if_neg (by simpa using key.char_ne.2.2.2.1), List.getElem?_cons_succ, List.getElem?_cons_zero,
    if_pos rfl, ← hc]
  exact decide_eq_true hd

/-- The loop takes a type within the limits where it may stand, and several members of a struct. -/
theorem cDvarVerifyType_signature :
    (∀ (type : DType) (rest before containers : Bytes),
      openArrays containers + type.arrays ≤ cDvarTypeDepthMax / 2 →
      openTuples containers + type.tuples ≤ cDvarTypeDepthMax / 2 →
      before.length + type.signature.length ≤ cDvarTypeLengthMax →
      (∀ c ∈ type.signature.head?, EntryAllows c before containers) →
      cDvarVerifyType (type.signature ++ rest) before containers =
        verifyFinish rest (type.signature.reverse ++ before) containers) ∧
    ∀ (types : List DType) (rest before containers : Bytes),
      openArrays containers + DType.arraysOf types ≤ cDvarTypeDepthMax / 2 →
      openTuples containers + DType.tuplesOf types + 1 ≤ cDvarTypeDepthMax / 2 →
      before.length + (DType.signatures types).length ≤ cDvarTypeLengthMax →
      cDvarVerifyType (DType.signatures types ++ rest) before (byte '(' :: containers) =
        cDvarVerifyType rest ((DType.signatures types).reverse ++ before) (byte '(' :: containers) := by
  refine DType.induct (fun type rest before containers harrays htuples hlength hentry => ?_)
    (fun rest before containers harrays htuples hlength hentry => ?_)
    (fun element ih rest before containers harrays htuples hlength hentry => ?_)
    (fun key value ih rest before containers harrays htuples hlength hentry => ?_)
    (fun first types ihFirst ihRest rest before containers harrays htuples hlength hentry => ?_)
    (fun rest before containers harrays htuples hlength => ?_)
    (fun type types ih ihTypes rest before containers harrays htuples hlength => ?_)
  · rw [DType.signature] at *
    exact cDvarVerifyType_basic type (Nat.lt_of_succ_le hlength) (hentry _ rfl)
  · rw [DType.signature] at *
    exact cDvarVerifyType_variant (Nat.lt_of_succ_le hlength) (hentry _ rfl)
  · rw [DType.signature] at *
    rw [DType.arrays] at harrays
    rw [DType.tuples] at htuples
    rw [List.length_cons] at hlength
    have harray : openArrays (byte 'a' :: containers) = openArrays containers + 1 := openArrays_cons _ _
    have htuple : openTuples (byte 'a' :: containers) = openTuples containers := openTuples_cons _ _
    rw [List.cons_append, cDvarVerifyType_opening (.inl rfl) (by omega) (hentry _ rfl) fun h => absurd h (by decide),
      if_pos ((cDvarVerifyDepth_iff _).mpr ⟨by omega, by omega⟩),
      ih rest _ _ (by omega) (by omega) (by rw [List.length_cons]; omega) fun c _ => entryAllows_of_ne (by decide),
      verifyFinish_array, List.reverse_cons, List.append_assoc]
    rfl
  · rw [DType.signature] at *
    rw [DType.arrays] at harrays
    rw [DType.tuples] at htuples
    simp only [List.length_cons, List.length_append, List.length_nil] at hlength
    have harray : openArrays (byte 'a' :: containers) = openArrays containers + 1 := openArrays_cons _ _
    have htuple : openTuples (byte 'a' :: containers) = openTuples containers := openTuples_cons _ _
    have harray' : openArrays (byte '\x7b' :: byte 'a' :: containers) = openArrays (byte 'a' :: containers) :=
      openArrays_cons _ _
    have htuple' : openTuples (byte '\x7b' :: byte 'a' :: containers) = openTuples (byte 'a' :: containers) + 1 :=
      openTuples_cons _ _
    have hsettled : Settled (value.signature.reverse ++ key.char :: byte '\x7b' :: byte 'a' :: before) :=
      settled_signature.1 value _ (by simpa using key.char_ne.2.2.2.1)
    have hbefore : (value.signature.reverse ++ key.char :: byte '\x7b' :: byte 'a' :: before).length =
        value.signature.length + before.length + 3 := by simp; omega
    simp only [List.cons_append, List.append_assoc, List.nil_append]
    rw [cDvarVerifyType_opening (.inl rfl) (by omega) (hentry _ rfl) fun h => absurd h (by decide),
      if_pos ((cDvarVerifyDepth_iff _).mpr ⟨by omega, by omega⟩),
      cDvarVerifyType_opening (.inr (.inr rfl)) (by rw [List.length_cons]; omega) (entryAllows_of_ne (by decide))
        fun _ => rfl,
      if_pos ((cDvarVerifyDepth_iff _).mpr ⟨by omega, by omega⟩),
      cDvarVerifyType_basic key (by simp only [List.length_cons]; omega) (entryAllows_key key),
      verifyFinish_tuple (by decide),
      ih _ _ _ (by omega) (by omega) (by simp only [List.length_cons]; omega) fun c hc => entryAllows_value key hc,
      verifyFinish_tuple (by decide), cDvarVerifyType_entryEnd (by omega) hsettled, verifyFinish_array]
    simp
  · rw [DType.signature] at *
    rw [DType.arrays] at harrays
    rw [DType.tuples] at htuples
    simp only [List.length_cons, List.length_append, List.length_nil] at hlength
    have harray : openArrays (byte '(' :: containers) = openArrays containers := openArrays_cons _ _
    have htuple : openTuples (byte '(' :: containers) = openTuples containers + 1 := openTuples_cons _ _
    have hsettled := settled_signature.2 types (first.signature.reverse ++ byte '(' :: before)
      (settled_signature.1 first _ (by simp; decide))
    have hbefore : ((DType.signatures types).reverse ++ (first.signature.reverse ++ byte '(' :: before)).length =
        (DType.signatures types).length + first.signature.length + before.length + 1 := by simp; omega
    simp only [List.cons_append, List.append_assoc, List.nil_append]
    rw [cDvarVerifyType_opening (.inr (.inl rfl)) (by omega) (hentry _ rfl) fun h => absurd h (by decide),
      if_pos ((cDvarVerifyDepth_iff _).mpr ⟨by omega, by omega⟩),
      ihFirst _ _ _ (by omega) (by omega) (by rw [List.length_cons]; omega) fun c _ => entryAllows_of_ne (by decide),
      verifyFinish_tuple (by decide), ihRest _ _ _ (by omega) (by omega) (by simp; omega),
      cDvarVerifyType_structEnd (by omega) hsettled]
    simp
  · rfl
  · rw [DType.arraysOf] at harrays
    rw [DType.tuplesOf] at htuples
    rw [DType.signatures, List.length_append] at hlength
    have harray : openArrays (byte '(' :: containers) = openArrays containers := openArrays_cons _ _
    have htuple : openTuples (byte '(' :: containers) = openTuples containers + 1 := openTuples_cons _ _
    rw [DType.signatures, List.append_assoc, ih _ _ _ (by omega) (by omega) (by omega)
      fun c _ => entryAllows_of_ne (by decide), verifyFinish_tuple (by decide),
      ihTypes _ _ _ (by omega) (by omega) (by rw [List.length_append, List.length_reverse]; omega), List.reverse_append,
      List.append_assoc]

/-! ## Soundness -/

section

variable {c : UInt8} {rest before containers : Bytes} {n : ℕ}

/-- The characters that the loop takes, and the containers that a bracket closes. -/
theorem cDvarVerifyType_char (h : cDvarVerifyType (c :: rest) before containers = some n) :
    (c = byte 'a' ∨ c = byte '(' ∨ c = byte '\x7b') ∨ c = byte ')' ∧ containers.head? = some (byte '(') ∨
      c = byte '\x7d' ∧ containers.head? = some (byte '\x7b') ∨ cDvarBasic.contains c = true ∨ c = byte 'v' := by
  obtain ⟨hlength, hentry, hdict⟩ := cDvarVerifyType_eq_some h
  rw [cDvarVerifyType_step hlength hentry hdict] at h
  by_cases hopen : (c = byte '\x7b' || c = byte '(' || c = byte 'a') = true
  · simp only [Bool.or_eq_true, decide_eq_true_eq] at hopen
    exact .inl (by tauto)
  rw [if_neg hopen] at h
  by_cases hclose : (c = byte '\x7d' || c = byte ')') = true
  · rw [if_pos hclose] at h
    by_cases hhead : containers.head? ≠ some (if c = byte '\x7d' then byte '\x7b' else byte '(')
    · rw [if_pos hhead] at h
      cases h
    · rw [not_ne_iff] at hhead
      by_cases hc : c = byte '\x7d'
      · rw [if_pos hc] at hhead
        exact .inr (.inr (.inl ⟨hc, hhead⟩))
      · rw [if_neg hc] at hhead
        simp only [Bool.or_eq_true, decide_eq_true_eq] at hclose
        exact .inr (.inl ⟨hclose.resolve_left hc, hhead⟩)
  rw [if_neg hclose] at h
  by_cases hleaf : (cDvarBasic.contains c || c = byte 'v') = true
  · simp only [Bool.or_eq_true, decide_eq_true_eq] at hleaf
    exact .inr (.inr (.inr hleaf))
  · rw [if_neg hleaf] at h
    cases h

/-- A container that is opened within the limits. -/
theorem cDvarVerifyType_opened (hc : c = byte 'a' ∨ c = byte '(' ∨ c = byte '\x7b')
    (h : cDvarVerifyType (c :: rest) before containers = some n) :
    before.length < cDvarTypeLengthMax ∧ openArrays (c :: containers) ≤ cDvarTypeDepthMax / 2 ∧
      openTuples (c :: containers) ≤ cDvarTypeDepthMax / 2 ∧
      cDvarVerifyType rest (c :: before) (c :: containers) = some n := by
  obtain ⟨hlength, hentry, hdict⟩ := cDvarVerifyType_eq_some h
  rw [cDvarVerifyType_opening hc hlength hentry hdict] at h
  by_cases hdepth : cDvarVerifyDepth (c :: containers) = true
  · rw [if_pos hdepth] at h
    exact ⟨hlength, ((cDvarVerifyDepth_iff _).mp hdepth).1, ((cDvarVerifyDepth_iff _).mp hdepth).2, h⟩
  · rw [if_neg hdepth] at h
    cases h

end

/-- A type in front of what the loop reads, where it may stand. -/
def TypeInFront (s before containers : Bytes) (n : ℕ) : Prop :=
  ∃ (type : DType) (rest : Bytes), s = type.signature ++ rest ∧
    openArrays containers + type.arrays ≤ cDvarTypeDepthMax / 2 ∧
    openTuples containers + type.tuples ≤ cDvarTypeDepthMax / 2 ∧
    before.length + type.signature.length ≤ cDvarTypeLengthMax ∧
    verifyFinish rest (type.signature.reverse ++ before) containers = some n

/-- The members of a struct in front of what the loop reads, with the bracket behind them. -/
def MembersInFront (s before containers : Bytes) (n : ℕ) : Prop :=
  ∃ (types : List DType) (rest : Bytes), s = DType.signatures types ++ byte ')' :: rest ∧
    (before[0]? = some (byte '(') → types ≠ []) ∧
    openArrays containers + DType.arraysOf types ≤ cDvarTypeDepthMax / 2 ∧
    openTuples containers + DType.tuplesOf types + 1 ≤ cDvarTypeDepthMax / 2 ∧
    before.length + (DType.signatures types).length < cDvarTypeLengthMax ∧
    verifyFinish rest (byte ')' :: ((DType.signatures types).reverse ++ before)) containers = some n

/-- Where a type may begin. -/
def StartsType (s : Bytes) : Prop := ∀ c ∈ s.head?, c ≠ byte ')' ∧ c ≠ byte '\x7b' ∧ c ≠ byte '\x7d'

/-- The first statement below, for strings up to a length. -/
def TypesInFront (fuel n : ℕ) : Prop := ∀ s before containers : Bytes, s.length ≤ fuel →
  cDvarVerifyType s before containers = some n → StartsType s →
  openArrays containers ≤ cDvarTypeDepthMax / 2 → openTuples containers ≤ cDvarTypeDepthMax / 2 →
  TypeInFront s before containers n

section

variable {c : UInt8} {rest before containers : Bytes} {fuel n : ℕ}

theorem exists_cons_of_cDvarVerifyType {s : Bytes} (h : cDvarVerifyType s before containers = some n) :
    ∃ c rest, s = c :: rest := by
  cases s with
  | nil => cases h
  | cons c rest => exact ⟨c, rest, rfl⟩

/-- Where no container is closed and no dict entry opened, a type begins. -/
theorem startsType_of_head (h : cDvarVerifyType (c :: rest) before containers = some n)
    (hstruct : c = byte ')' → containers.head? ≠ some (byte '('))
    (hdict : c = byte '\x7b' → containers.head? ≠ some (byte 'a'))
    (hentry : c = byte '\x7d' → containers.head? ≠ some (byte '\x7b')) : StartsType (c :: rest) := by
  have hchar := cDvarVerifyType_char h
  intro e he
  obtain rfl : c = e := Option.some.inj he
  refine ⟨?_, ?_, ?_⟩
  · rintro rfl
    rcases hchar with hopen | hclose | hclose | hbasic | hvariant
    · exact absurd hopen (by decide)
    · exact hstruct rfl hclose.2
    · exact absurd hclose.1 (by decide)
    · exact absurd hbasic (by decide)
    · exact absurd hvariant (by decide)
  · rintro rfl
    exact hdict rfl ((cDvarVerifyType_eq_some h).2.2 rfl)
  · rintro rfl
    rcases hchar with hopen | hclose | hclose | hbasic | hvariant
    · exact absurd hopen (by decide)
    · exact absurd hclose.1 (by decide)
    · exact hentry rfl hclose.2
    · exact absurd hbasic (by decide)
    · exact absurd hvariant (by decide)

theorem head?_cons_ne {d e : UInt8} (h : d ≠ e) : (d :: containers).head? ≠ some e := fun heq => h (Option.some.inj heq)

/-- A dict entry inside of an array. -/
theorem dictInFront (ih : TypesInFront fuel n) (hfuel : rest.length ≤ fuel)
    (h : cDvarVerifyType (byte '\x7b' :: rest) (byte 'a' :: before) (byte 'a' :: containers) = some n) :
    TypeInFront (byte 'a' :: byte '\x7b' :: rest) before containers n := by
  obtain ⟨-, harrays, htuples, h⟩ := cDvarVerifyType_opened (.inr (.inr rfl)) h
  obtain ⟨k, rest, rfl⟩ := exists_cons_of_cDvarVerifyType h
  obtain ⟨hlength, hentry, -⟩ := cDvarVerifyType_eq_some h
  have hbasic : cDvarBasic.contains k = true := by
    have hkey := hentry rfl
    rwa [cDvarVerifyDict, List.getElem?_cons_zero, if_pos rfl] at hkey
  have hk := BasicType.char_ne ⟨k, hbasic⟩
  rw [cDvarVerifyType_basic ⟨k, hbasic⟩ hlength hentry, verifyFinish_tuple (by decide)] at h
  dsimp only at h
  obtain ⟨d, rest, rfl⟩ := exists_cons_of_cDvarVerifyType h
  have hvalue : d ≠ byte '\x7d' := by
    have hd := (cDvarVerifyType_eq_some h).2.1 rfl
    rw [cDvarVerifyDict, if_neg (by simpa using hk.2.2.2.1), List.getElem?_cons_succ, List.getElem?_cons_zero,
      if_pos rfl] at hd
    exact of_decide_eq_true hd
  rw [List.length_cons] at hfuel
  obtain ⟨value, rest, heq, harrays', htuples', hlength', h⟩ := ih _ _ _ (by omega) h
    (startsType_of_head h (fun _ => head?_cons_ne (by decide)) (fun _ => head?_cons_ne (by decide))
      fun heq => absurd heq hvalue) harrays htuples
  have hsettled : Settled (value.signature.reverse ++ k :: byte '\x7b' :: byte 'a' :: before) :=
    settled_signature.1 value _ (by simpa using hk.2.2.2.1)
  rw [verifyFinish_tuple (by decide)] at h
  obtain ⟨e, rest, rfl⟩ := exists_cons_of_cDvarVerifyType h
  obtain rfl : e = byte '\x7d' := by
    have he := (cDvarVerifyType_eq_some h).2.1 rfl
    rw [cDvarVerifyDict, if_neg hsettled.key, if_neg hsettled.value] at he
    exact of_decide_eq_true he
  have hend := (cDvarVerifyType_eq_some h).1
  have hbefore : (value.signature.reverse ++ k :: byte '\x7b' :: byte 'a' :: before).length =
      value.signature.length + before.length + 3 := by simp; omega
  rw [cDvarVerifyType_entryEnd hend hsettled, verifyFinish_array] at h
  have harray : openArrays (byte '\x7b' :: byte 'a' :: containers) = openArrays containers + 1 :=
    (openArrays_cons _ _).trans (openArrays_cons _ _)
  have htuple : openTuples (byte '\x7b' :: byte 'a' :: containers) = openTuples containers + 1 :=
    (openTuples_cons _ _).trans (congrArg (· + 1) (openTuples_cons _ _))
  refine ⟨.dict ⟨k, hbasic⟩ value, rest, ?_, ?_, ?_, ?_, ?_⟩
  · simp [DType.signature, heq]
  · rw [DType.arrays]
    omega
  · rw [DType.tuples]
    omega
  · simp only [DType.signature, List.length_cons, List.length_append, List.length_nil]
    omega
  · simpa [DType.signature] using h

/-- The element of an array. -/
theorem arrayInFront (ih : TypesInFront fuel n) (hfuel : rest.length ≤ fuel)
    (harrays : openArrays (byte 'a' :: containers) ≤ cDvarTypeDepthMax / 2)
    (htuples : openTuples (byte 'a' :: containers) ≤ cDvarTypeDepthMax / 2)
    (h : cDvarVerifyType rest (byte 'a' :: before) (byte 'a' :: containers) = some n) :
    TypeInFront (byte 'a' :: rest) before containers n := by
  obtain ⟨d, rest, rfl⟩ := exists_cons_of_cDvarVerifyType h
  by_cases hd : d = byte '\x7b'
  · subst hd
    rw [List.length_cons] at hfuel
    exact dictInFront ih (by omega) h
  · have hstarts := startsType_of_head h (fun _ => head?_cons_ne (by decide)) (fun heq => absurd heq hd)
      fun _ => head?_cons_ne (by decide)
    obtain ⟨element, rest', heq, harrays', htuples', hlength', h⟩ := ih _ _ _ hfuel h hstarts harrays htuples
    have harray : openArrays (byte 'a' :: containers) = openArrays containers + 1 := openArrays_cons _ _
    have htuple : openTuples (byte 'a' :: containers) = openTuples containers := openTuples_cons _ _
    rw [List.length_cons] at hlength'
    rw [verifyFinish_array] at h
    refine ⟨.array element, rest', by rw [DType.signature, heq, List.cons_append], ?_, ?_, ?_, ?_⟩
    · rw [DType.arrays]
      omega
    · rw [DType.tuples]
      omega
    · rw [DType.signature, List.length_cons]
      omega
    · rwa [DType.signature, List.reverse_cons, List.append_assoc]

/-- The members of a struct. -/
theorem structInFront (h : MembersInFront rest (byte '(' :: before) containers n) :
    TypeInFront (byte '(' :: rest) before containers n := by
  obtain ⟨types, rest', rfl, hmembers, harrays, htuples, hlength, h⟩ := h
  cases types with
  | nil => exact absurd rfl (hmembers rfl)
  | cons first types =>
    rw [DType.arraysOf] at harrays
    rw [DType.tuplesOf] at htuples
    rw [DType.signatures, List.length_append, List.length_cons] at hlength
    refine ⟨.struct first types, rest', ?_, ?_, ?_, ?_, ?_⟩
    · simp [DType.signature, DType.signatures]
    · rw [DType.arrays]
      omega
    · rw [DType.tuples]
      omega
    · simp only [DType.signature, List.length_cons, List.length_append, List.length_nil]
      omega
    · simpa [DType.signature, DType.signatures] using h

end

/-- What the loop takes begins with a type, or with members and a bracket. -/
theorem inFront_of_cDvarVerifyType {n : ℕ} (fuel : ℕ) : TypesInFront fuel n ∧
    ∀ s before containers : Bytes, s.length ≤ fuel → cDvarVerifyType s before (byte '(' :: containers) = some n →
      openArrays containers ≤ cDvarTypeDepthMax / 2 → openTuples containers + 1 ≤ cDvarTypeDepthMax / 2 →
      MembersInFront s before containers n := by
  induction fuel with
  | zero =>
    have hempty {s before containers : Bytes} (hs : s.length ≤ 0) (h : cDvarVerifyType s before containers = some n) :
        False := by
      rw [List.eq_nil_of_length_eq_zero (Nat.le_zero.mp hs)] at h
      cases h
    exact ⟨fun s before containers hs h => (hempty hs h).elim, fun s before containers hs h => (hempty hs h).elim⟩
  | succ fuel ih =>
    have htypes : TypesInFront (fuel + 1) n := by
      intro s before containers hs h hstarts harrays htuples
      obtain ⟨c, rest, rfl⟩ := exists_cons_of_cDvarVerifyType h
      rw [List.length_cons] at hs
      obtain ⟨hc, hb, he⟩ := hstarts c rfl
      obtain ⟨hlength, hentry, -⟩ := cDvarVerifyType_eq_some h
      rcases cDvarVerifyType_char h with (rfl | rfl | rfl) | ⟨rfl, -⟩ | ⟨rfl, -⟩ | hbasic | rfl
      · obtain ⟨-, harrays', htuples', h⟩ := cDvarVerifyType_opened (.inl rfl) h
        exact arrayInFront ih.1 (by omega) harrays' htuples' h
      · obtain ⟨-, harrays', htuples', h⟩ := cDvarVerifyType_opened (.inr (.inl rfl)) h
        exact structInFront (ih.2 _ _ _ (by omega) h harrays htuples')
      · exact absurd rfl hb
      · exact absurd rfl hc
      · exact absurd rfl he
      · rw [cDvarVerifyType_basic ⟨c, hbasic⟩ hlength hentry] at h
        exact ⟨.basic ⟨c, hbasic⟩, rest, rfl, harrays, htuples, hlength, h⟩
      · rw [cDvarVerifyType_variant hlength hentry] at h
        exact ⟨.variant, rest, rfl, harrays, htuples, hlength, h⟩
    refine ⟨htypes, fun s before containers hs h harrays htuples => ?_⟩
    obtain ⟨c, rest, rfl⟩ := exists_cons_of_cDvarVerifyType h
    by_cases hc : c = byte ')'
    · subst hc
      have hlength := (cDvarVerifyType_eq_some h).1
      rw [cDvarVerifyType_struct hlength] at h
      by_cases hbefore : before[0]? = some (byte '(')
      · rw [if_pos hbefore] at h
        cases h
      · rw [if_neg hbefore] at h
        exact ⟨[], rest, rfl, fun heq => absurd heq hbefore, harrays, htuples, hlength, h⟩
    · have hstarts := startsType_of_head h (fun heq => absurd heq hc) (fun _ => head?_cons_ne (by decide))
        fun _ => head?_cons_ne (by decide)
      have harray : openArrays (byte '(' :: containers) = openArrays containers := openArrays_cons _ _
      have htuple : openTuples (byte '(' :: containers) = openTuples containers + 1 := openTuples_cons _ _
      obtain ⟨type, rest', heq, harrays', htuples', hlength', h⟩ := htypes _ _ _ hs h hstarts (by omega) (by omega)
      rw [verifyFinish_tuple (by decide)] at h
      have hpos := type.signature_length_pos
      have hshorter := congrArg List.length heq
      rw [List.length_append] at hshorter
      obtain ⟨types, rest'', rfl, -, harrays'', htuples'', hlength'', h⟩ := ih.2 _ _ _ (by omega) h harrays htuples
      rw [List.length_append, List.length_reverse] at hlength''
      refine ⟨type :: types, rest'', ?_, fun _ => List.cons_ne_nil _ _, ?_, ?_, ?_, ?_⟩
      · rw [heq, DType.signatures, List.append_assoc]
      · rw [DType.arraysOf]
        omega
      · rw [DType.tuplesOf]
        omega
      · rw [DType.signatures, List.length_append]
        omega
      · rwa [DType.signatures, List.reverse_append, List.append_assoc]

/-! ## Signatures -/

/-- The loop finds the first type of a signature. -/
theorem cDvarVerifyType_eq_some_iff {s : Bytes} {n : ℕ} : cDvarVerifyType s [] [] = some n ↔
    ∃ (type : DType) (rest : Bytes), type.Fits ∧ s = type.signature ++ rest ∧ n = type.signature.length := by
  constructor
  · intro h
    have hstarts : StartsType s := by
      obtain ⟨c, rest, rfl⟩ := exists_cons_of_cDvarVerifyType h
      exact startsType_of_head h (fun _ heq => by cases heq) (fun _ heq => by cases heq) fun _ heq => by cases heq
    obtain ⟨type, rest, heq, harrays, htuples, hlength, h⟩ :=
      (inFront_of_cDvarVerifyType s.length).1 s [] [] (Nat.le_refl _) h hstarts (Nat.zero_le _) (Nat.zero_le _)
    have hnil : openArrays [] = 0 ∧ openTuples [] = 0 := ⟨rfl, rfl⟩
    rw [verifyFinish_nil, List.append_nil, List.length_reverse, Option.some.injEq] at h
    rw [List.length_nil] at hlength
    exact ⟨type, rest, ⟨by omega, by omega, by omega⟩, heq, h.symm⟩
  · rintro ⟨type, rest, hfits, rfl, rfl⟩
    have hnil : openArrays [] = 0 ∧ openTuples [] = 0 := ⟨rfl, rfl⟩
    rw [cDvarVerifyType_signature.1 type rest [] [] (by rw [hnil.1, Nat.zero_add]; exact hfits.arrays)
      (by rw [hnil.2, Nat.zero_add]; exact hfits.tuples) (by rw [List.length_nil, Nat.zero_add]; exact hfits.length)
      (fun c _ hhead => by cases hhead), verifyFinish_nil, List.append_nil, List.length_reverse]

/-- A type string is the signature of one type. -/
theorem cDvarIsType_iff (s : Bytes) : cDvarIsType s = true ↔ ∃ type : DType, type.Fits ∧ type.signature = s := by
  rw [cDvarIsType, beq_iff_eq, cDvarVerifyType_eq_some_iff]
  constructor
  · rintro ⟨type, rest, hfits, rfl, hlength⟩
    rw [List.length_append] at hlength
    obtain rfl := List.eq_nil_of_length_eq_zero (by omega : rest.length = 0)
    exact ⟨type, hfits, (List.append_nil _).symm⟩
  · rintro ⟨type, hfits, rfl⟩
    exact ⟨type, [], hfits, (List.append_nil _).symm, rfl⟩

/-- The types by their first character. -/
theorem DType.signature_cases {type : DType} {c : UInt8} {rest s : Bytes} (h : c :: s = type.signature ++ rest) :
    (∃ b : BasicType, type = .basic b ∧ c = b.char ∧ s = rest) ∨ type = .variant ∧ c = byte 'v' ∧ s = rest ∨
      (∃ element, type = .array element ∧ c = byte 'a' ∧ s = element.signature ++ rest) ∨
      (∃ key value, type = .dict key value ∧ c = byte 'a' ∧
        s = byte '\x7b' :: key.char :: (value.signature ++ byte '\x7d' :: rest)) ∨
      ∃ first types, type = .struct first types ∧ c = byte '(' ∧ s = signatures (first :: types) ++ byte ')' :: rest := by
  cases type with
  | basic b =>
    rw [signature, List.cons_append, List.cons.injEq] at h
    exact .inl ⟨b, rfl, h.1, h.2⟩
  | variant =>
    rw [signature, List.cons_append, List.cons.injEq] at h
    exact .inr (.inl ⟨rfl, h.1, h.2⟩)
  | array element =>
    rw [signature, List.cons_append, List.cons.injEq] at h
    exact .inr (.inr (.inl ⟨element, rfl, h.1, h.2⟩))
  | dict key value =>
    rw [signature, List.cons_append, List.cons.injEq] at h
    exact .inr (.inr (.inr (.inl ⟨key, value, rfl, h.1, by rw [h.2]; simp⟩)))
  | struct first types =>
    rw [signature, List.cons_append, List.cons.injEq] at h
    exact .inr (.inr (.inr (.inr ⟨first, types, rfl, h.1, by rw [h.2]; simp [signatures]⟩)))

/-- The characters of a type determine it, and where it ends. -/
theorem signature_prefix_unique : (∀ (type other : DType) (rest rest' : Bytes),
      type.signature ++ rest = other.signature ++ rest' → type = other ∧ rest = rest') ∧
    ∀ (types others : List DType) (rest rest' : Bytes),
      DType.signatures types ++ byte ')' :: rest = DType.signatures others ++ byte ')' :: rest' →
      types = others ∧ rest = rest' := by
  refine DType.induct (fun type other rest rest' h => ?_) (fun other rest rest' h => ?_)
    (fun element ih other rest rest' h => ?_) (fun key value ih other rest rest' h => ?_)
    (fun first types ihFirst ihRest other rest rest' h => ?_) (fun others rest rest' h => ?_)
    (fun type types ih ihTypes others rest rest' h => ?_)
  · have hc := type.char_ne
    rw [DType.signature, List.cons_append] at h
    obtain ⟨b, rfl, hb, hs⟩ | ⟨-, hv, -⟩ | ⟨-, -, ha, -⟩ | ⟨-, -, -, ha, -⟩ | ⟨-, -, -, ho, -⟩ := DType.signature_cases h
    · cases type
      cases b
      subst hb
      exact ⟨rfl, hs⟩
    · exact absurd hv hc.2.2.2.2.2
    · exact absurd ha hc.1
    · exact absurd ha hc.1
    · exact absurd ho hc.2.1
  · rw [DType.signature, List.cons_append] at h
    obtain ⟨b, -, hb, -⟩ | ⟨rfl, -, hs⟩ | ⟨-, -, ha, -⟩ | ⟨-, -, -, ha, -⟩ | ⟨-, -, -, ho, -⟩ := DType.signature_cases h
    · exact absurd hb.symm b.char_ne.2.2.2.2.2
    · exact ⟨rfl, hs⟩
    · exact absurd ha (by decide)
    · exact absurd ha (by decide)
    · exact absurd ho (by decide)
  · rw [DType.signature, List.cons_append] at h
    obtain ⟨b, -, hb, -⟩ | ⟨-, hv, -⟩ | ⟨e, rfl, -, hs⟩ | ⟨key, value, -, -, hs⟩ | ⟨-, -, -, ho, -⟩ := DType.signature_cases h
    · exact absurd hb.symm b.char_ne.1
    · exact absurd hv (by decide)
    · obtain ⟨rfl, hrest⟩ := ih _ _ _ hs
      exact ⟨rfl, hrest⟩
    · obtain ⟨c, s, hsignature, -, hc, -⟩ := element.signature_eq_cons
      rw [hsignature] at hs
      exact absurd (List.cons.inj hs).1 hc
    · exact absurd ho (by decide)
  · rw [DType.signature, List.cons_append] at h
    obtain ⟨b, -, hb, -⟩ | ⟨-, hv, -⟩ | ⟨e, -, -, hs⟩ | ⟨key', value', rfl, -, hs⟩ | ⟨-, -, -, ho, -⟩ :=
      DType.signature_cases h
    · exact absurd hb.symm b.char_ne.1
    · exact absurd hv (by decide)
    · obtain ⟨c, s, hsignature, -, hc, -⟩ := e.signature_eq_cons
      rw [hsignature] at hs
      exact absurd (List.cons.inj hs).1.symm hc
    · simp only [List.cons_append, List.append_assoc, List.nil_append, List.cons.injEq, true_and] at hs
      obtain ⟨rfl, hrest⟩ := ih _ _ _ hs.2
      cases key
      cases key'
      obtain rfl := hs.1
      exact ⟨rfl, (List.cons.inj hrest).2⟩
    · exact absurd ho (by decide)
  · rw [DType.signature, List.cons_append] at h
    obtain ⟨b, -, hb, -⟩ | ⟨-, hv, -⟩ | ⟨-, -, ha, -⟩ | ⟨-, -, -, ha, -⟩ | ⟨first', types', rfl, -, hs⟩ :=
      DType.signature_cases h
    · exact absurd hb.symm b.char_ne.2.1
    · exact absurd hv (by decide)
    · exact absurd ha (by decide)
    · exact absurd ha (by decide)
    · simp only [DType.signatures, List.append_assoc, List.cons_append, List.nil_append] at hs
      obtain ⟨rfl, hrest⟩ := ihFirst _ _ _ hs
      obtain ⟨rfl, hrest'⟩ := ihRest _ _ _ hrest
      exact ⟨rfl, hrest'⟩
  · cases others with
    | nil => exact ⟨rfl, (List.cons.inj h).2⟩
    | cons type types =>
      obtain ⟨c, s, hsignature, hc, -⟩ := type.signature_eq_cons
      rw [DType.signatures, DType.signatures, hsignature, List.nil_append, List.cons_append, List.cons_append,
        List.cons.injEq] at h
      exact absurd h.1.symm hc
  · cases others with
    | nil =>
      obtain ⟨c, s, hsignature, hc, -⟩ := type.signature_eq_cons
      rw [DType.signatures, DType.signatures, hsignature, List.nil_append, List.cons_append, List.cons_append,
        List.cons.injEq] at h
      exact absurd h.1 hc
    | cons other others =>
      rw [DType.signatures, DType.signatures, List.append_assoc, List.append_assoc] at h
      obtain ⟨rfl, hrest⟩ := ih _ _ _ h
      obtain ⟨rfl, hrest'⟩ := ihTypes _ _ _ hrest
      exact ⟨rfl, hrest'⟩

theorem signatures_flatMap (types : List DType) : DType.signatures types = types.flatMap DType.signature := by
  induction types with
  | nil => rfl
  | cons type types ih => rw [DType.signatures, List.flatMap_cons, ih]

/-- The types of a signature are read one after the other. -/
theorem cDvarIsSignatureFuel_iff {fuel : ℕ} {s : Bytes} (hfuel : s.length ≤ fuel) :
    cDvarIsSignatureFuel fuel s = true ↔ ∃ types : List DType, (∀ type ∈ types, type.Fits) ∧ DType.signatures types = s := by
  induction fuel generalizing s with
  | zero =>
    obtain rfl := List.eq_nil_of_length_eq_zero (Nat.le_zero.mp hfuel)
    exact iff_of_true rfl ⟨[], by simp, rfl⟩
  | succ fuel ih =>
    rw [cDvarIsSignatureFuel]
    constructor
    · intro h
      cases hverify : cDvarVerifyType s [] [] with
      | none =>
        rw [hverify, Option.elim_none, Bool.or_false, List.isEmpty_iff] at h
        exact ⟨[], by simp, by rw [h]; rfl⟩
      | some n =>
        obtain ⟨type, rest, hfits, rfl, rfl⟩ := cDvarVerifyType_eq_some_iff.mp hverify
        have hpos := type.signature_length_pos
        have hnonempty : (type.signature ++ rest).isEmpty = false := by
          obtain ⟨c, s, hsignature, -⟩ := type.signature_eq_cons
          rw [hsignature]
          rfl
        rw [List.length_append] at hfuel
        rw [hnonempty, Bool.false_or, hverify, Option.elim_some, List.drop_left, ih (by omega)] at h
        obtain ⟨types, hall, rfl⟩ := h
        exact ⟨type :: types, List.forall_mem_cons.mpr ⟨hfits, hall⟩, rfl⟩
    · rintro ⟨types, hall, rfl⟩
      cases types with
      | nil => rfl
      | cons type types =>
        obtain ⟨hfits, hall⟩ := List.forall_mem_cons.mp hall
        have hpos := type.signature_length_pos
        rw [DType.signatures, List.length_append] at hfuel
        rw [DType.signatures, cDvarVerifyType_eq_some_iff.mpr ⟨type, _, hfits, rfl, rfl⟩, Option.elim_some,
          List.drop_left, (ih (by omega)).mpr ⟨types, hall, rfl⟩, Bool.or_true]

/-- The strings that `c_dvar_is_type` accepts are the signatures of the types within the limits of the protocol, and
those that `c_dvar_is_signature` accepts are the concatenations of such signatures of up to 255 characters. They name
their types: different types, and different lists of types, have different signatures. -/
theorem cDvarIsSignature_grammar (s : Bytes) :
    (cDvarIsType s = true ↔ ∃ type : DType, type.Fits ∧ type.signature = s ∧
      ∀ other : DType, other.signature = s → other = type) ∧
    (cDvarIsSignature s = true ↔ s.length ≤ cDvarTypeLengthMax ∧ ∃ types : List DType, (∀ type ∈ types, type.Fits) ∧
      types.flatMap DType.signature = s ∧ ∀ others : List DType, others.flatMap DType.signature = s → others = types) := by
  have hunique (type other : DType) (h : other.signature = type.signature) : other = type :=
    (signature_prefix_unique.1 other type [] [] (by rw [List.append_nil, List.append_nil, h])).1
  have huniques (types others : List DType) (h : DType.signatures others = DType.signatures types) : others = types :=
    (signature_prefix_unique.2 others types [] [] (by rw [h])).1
  constructor
  · rw [cDvarIsType_iff]
    constructor
    · rintro ⟨type, hfits, rfl⟩
      exact ⟨type, hfits, rfl, hunique type⟩
    · rintro ⟨type, hfits, hsignature, -⟩
      exact ⟨type, hfits, hsignature⟩
  · simp only [← signatures_flatMap]
    rw [cDvarIsSignature, Bool.and_eq_true, decide_eq_true_eq, cDvarIsSignatureFuel_iff (Nat.le_refl _)]
    refine and_congr_right fun _ => ⟨?_, ?_⟩
    · rintro ⟨types, hfits, rfl⟩
      exact ⟨types, hfits, rfl, huniques types⟩
    · rintro ⟨types, hfits, hsignature, -⟩
      exact ⟨types, hfits, hsignature⟩

end DbusBroker
