import DbusBroker.Dbus.TypeGrammar

/-!
# Type arrays

The array of `CDVarType` objects that `c_dvar_type_new_from_signature` makes of a signature, one
for every character of it. The entry of a container is written when it is opened and completed as
its members are read: its length and, if all of them are of a fixed size, its size.

The checks of this parser are weaker than those of `c_dvar_is_type`. For every signature that the
latter accepts it makes the array that describes the type: the arrays of the members behind the
entry of their container.
-/

namespace DbusBroker

open AlignedReader

/-- `CDVarType`: one entry of a type array. -/
structure CDVarType where
  size : ℕ
  alignment : ℕ
  element : UInt8
  length : ℕ
  basic : Bool
  deriving DecidableEq, Repr, Inhabited

/-- The errors of the type parser. -/
inductive DvarTypeError where
  | overlongType
  | depthOverflow
  | invalidType
  deriving DecidableEq, Repr

/-- `c_dvar_type_builtins`. -/
def cDvarTypeBuiltin (c : UInt8) : Option CDVarType :=
  if c = byte 'v' then some ⟨0, 0, c, 1, false⟩
  else if (lit "sog").contains c then some ⟨0, cDvarAlignment c, c, 1, true⟩
  else if c = byte 'b' then some ⟨4, 2, c, 1, true⟩
  else if (lit "ynqiuxthd").contains c then some ⟨cDvarSize c, cDvarAlignment c, c, 1, true⟩
  else none

/-- The first pass of `c_dvar_type_new_from_signature`: the length of the type, by its brackets. -/
def cDvarTypeCount : Bytes → ℕ → ℕ → Except DvarTypeError ℕ
  | [], _, _ => .error .overlongType
  | c :: rest, nType, depth =>
    if cDvarTypeLengthMax ≤ nType then .error .overlongType
    else if (c = byte ')' || c = byte '\x7d') && depth = 0 then .error .depthOverflow
    else
      let depth :=
        if c = byte '(' || c = byte '\x7b' then depth + 1
        else if c = byte ')' || c = byte '\x7d' then depth - 1 else depth
      if c = byte 'a' || depth ≠ 0 then cDvarTypeCount rest (nType + 1) depth else .ok (nType + 1)

/-- The entry of the array at a position. -/
def typeAt (type : List CDVarType) (i : ℕ) : CDVarType := type.getD i default

/-- The completed arrays around a type: `length` is added up in fields of eight bits. -/
def cDvarTypeArrays (type : List CDVarType) (this : ℕ) : List ℕ → List CDVarType × ℕ × List ℕ
  | [] => (type, this, [])
  | container :: stack =>
    if (typeAt type container).element = byte 'a' then
      cDvarTypeArrays (type.modify container fun t => { t with length := (t.length + (typeAt type this).length) % 256 })
        container stack
    else (type, this, container :: stack)

/-- The entry of a tuple with one more member. Its size is a field of eleven bits. -/
def CDVarType.account (container this : CDVarType) (isFirst : Bool) : CDVarType :=
  { container with
    size := if this.size ≠ 0 && (isFirst || container.size ≠ 0)
      then (align (2 ^ this.alignment) container.size % 2048 + this.size) % 2048 else 0
    length := (container.length + this.length) % 256 }

/-- The check on a member of a dict entry: its position, and the entry's. -/
def cDvarTypeDict (c : UInt8) (i container : ℕ) : Bool :=
  if i < container + 2 then (cDvarTypeBuiltin c).elim false CDVarType.basic
  else if i = container + 2 then c ≠ byte '\x7d'
  else c = byte '\x7d'

/-- The entry of a container that opens. -/
def cDvarTypeOpen (c : UInt8) : CDVarType :=
  if c = byte 'a' then ⟨0, 2, c, 1, false⟩ else ⟨0, 3, c, 2, false⟩

/-- The second pass: `type` is the array so far, `stack` the positions of the containers that are open, the innermost
first. -/
def cDvarTypeParse : Bytes → List CDVarType → List ℕ → ℕ → Except DvarTypeError (List CDVarType)
  | [], _, _, _ => .error .invalidType
  | c :: rest, type, stack, depthTuple =>
    let element := stack.head?.map fun container => (typeAt type container).element
    let terminal (type : List CDVarType) (this : ℕ) (stack : List ℕ) (depthTuple : ℕ) : Except DvarTypeError (List CDVarType) :=
      match cDvarTypeArrays type this stack with
      | (type, _, []) => .ok type
      | (type, this, container :: stack) =>
        cDvarTypeParse rest
          (type.modify container fun t => t.account (typeAt type this) (this = container + 1)) (container :: stack) depthTuple
    if element = some (byte '\x7b') && !cDvarTypeDict c type.length (stack.headD 0) then .error .invalidType
    else if c = byte '(' || c = byte '\x7b' || c = byte 'a' then
      let depthTuple := if c = byte 'a' then depthTuple else depthTuple + 1
      if cDvarTypeDepthMax < stack.length + 1 || cDvarTypeDepthMax / 2 < depthTuple ||
          cDvarTypeDepthMax / 2 < stack.length + 1 - depthTuple then .error .depthOverflow
      else cDvarTypeParse rest (type ++ [cDvarTypeOpen c]) (type.length :: stack) depthTuple
    else if c = byte '\x7d' || c = byte ')' then
      if element ≠ some (if c = byte '\x7d' then byte '\x7b' else byte '(') then .error .invalidType
      else terminal (type ++ [⟨0, 0, c, 1, false⟩]) (stack.headD 0) stack.tail (depthTuple - 1)
    else match cDvarTypeBuiltin c with
      | none => .error .invalidType
      | some builtin => terminal (type ++ [builtin]) type.length stack depthTuple

/-- `c_dvar_type_new_from_signature`. -/
def cDvarTypeNewFromSignature (signature : Bytes) : Except DvarTypeError (List CDVarType) :=
  match cDvarTypeCount signature 0 0 with
  | .error e => .error e
  | .ok nType => cDvarTypeParse (signature.take nType) [] [] 0

example : cDvarTypeNewFromSignature (lit "a\x7bs(yx)\x7dt") = .ok
    [⟨0, 2, byte 'a', 8, false⟩, ⟨0, 3, byte '\x7b', 7, false⟩, ⟨0, 2, byte 's', 1, true⟩, ⟨16, 3, byte '(', 4, false⟩,
      ⟨1, 0, byte 'y', 1, true⟩, ⟨8, 3, byte 'x', 1, true⟩, ⟨0, 0, byte ')', 1, false⟩, ⟨0, 0, byte '\x7d', 1, false⟩] := by
  decide +kernel

/-! ## The array of a type -/

/-- The size of a basic type, zero where it depends on the value. -/
def BasicType.fixedSize (type : BasicType) : ℕ :=
  if (lit "sog").contains type.char then 0 else if type.char = byte 'b' then 4 else cDvarSize type.char

/-- The size of members up to one more. -/
def memberSize (size alignment fixedSize : ℕ) : ℕ :=
  if fixedSize ≠ 0 ∧ size ≠ 0 then align (2 ^ alignment) size + fixedSize else 0

/-- The alignment of a type, as a power of two. -/
def DType.alignment : DType → ℕ
  | .basic type => cDvarAlignment type.char
  | .variant => 0
  | .array _ => 2
  | .dict _ _ => 2
  | .struct _ _ => 3

mutual

/-- The size of a type, zero where it depends on the value. -/
def DType.fixedSize : DType → ℕ
  | .basic type => type.fixedSize
  | .variant => 0
  | .array _ => 0
  | .dict _ _ => 0
  | .struct first rest => membersSize first.fixedSize rest

/-- The size of the members of a struct behind the ones of a size. -/
def DType.membersSize : ℕ → List DType → ℕ
  | size, [] => size
  | size, type :: types => membersSize (memberSize size type.alignment type.fixedSize) types

end

/-- The entry of a closing bracket. -/
def closingEntry (c : UInt8) : CDVarType := ⟨0, 0, c, 1, false⟩

/-- The entry of a basic type. -/
def BasicType.entry (type : BasicType) : CDVarType := ⟨type.fixedSize, cDvarAlignment type.char, type.char, 1, true⟩

mutual

/-- The entries of a type: that of a container and those of its members behind it. -/
def DType.entries : DType → List CDVarType
  | .basic type => [type.entry]
  | .variant => [⟨0, 0, byte 'v', 1, false⟩]
  | .array element => ⟨0, 2, byte 'a', element.signature.length + 1, false⟩ :: element.entries
  | .dict key value => ⟨0, 2, byte 'a', value.signature.length + 4, false⟩ ::
      ⟨memberSize key.fixedSize value.alignment value.fixedSize, 3, byte '\x7b', value.signature.length + 3, false⟩ ::
      key.entry :: (value.entries ++ [closingEntry (byte '\x7d')])
  | .struct first rest => ⟨membersSize first.fixedSize rest, 3, byte '(',
      first.signature.length + (signatures rest).length + 2, false⟩ ::
      (first.entries ++ entriesOf rest ++ [closingEntry (byte ')')])

/-- The entries of several types. -/
def DType.entriesOf : List DType → List CDVarType
  | [] => []
  | type :: types => type.entries ++ entriesOf types

end

theorem BasicType.builtin (type : BasicType) : cDvarTypeBuiltin type.char = some type.entry := by
  have hall : ∀ c ∈ cDvarBasic, cDvarTypeBuiltin c = some ⟨if (lit "sog").contains c then 0
      else if c = byte 'b' then 4 else cDvarSize c, cDvarAlignment c, c, 1, true⟩ := by decide +kernel
  exact hall type.char (List.contains_iff_mem.mp type.basic)

/-- Every character has an entry. -/
theorem map_element_entries : (∀ type : DType, type.entries.map CDVarType.element = type.signature) ∧
    ∀ types : List DType, (DType.entriesOf types).map CDVarType.element = DType.signatures types := by
  refine DType.induct (fun type => rfl) rfl (fun element ih => ?_) (fun key value ih => ?_)
    (fun first rest ihFirst ihRest => ?_) rfl (fun type types ih ihTypes => ?_)
  · rw [DType.entries, DType.signature, List.map_cons, ih]
  · rw [DType.entries, DType.signature, List.map_cons, List.map_cons, List.map_cons, List.map_append, ih]
    rfl
  · rw [DType.entries, DType.signature, List.map_cons, List.map_append, List.map_append, ihFirst, ihRest]
    rfl
  · rw [DType.entriesOf, DType.signatures, List.map_append, ih, ihTypes]

theorem length_entries (type : DType) : type.entries.length = type.signature.length := by
  rw [← map_element_entries.1, List.length_map]

/-- The first entry of a type is about the whole type. -/
theorem DType.entries_eq_cons (type : DType) : ∃ entry rest, type.entries = entry :: rest ∧
    entry.size = type.fixedSize ∧ entry.alignment = type.alignment ∧ entry.length = type.signature.length := by
  cases type with
  | basic type => exact ⟨_, _, by rw [entries], rfl, rfl, rfl⟩
  | variant => exact ⟨_, _, by rw [entries], rfl, rfl, rfl⟩
  | array element => exact ⟨_, _, by rw [entries], rfl, rfl, by rw [signature]; rfl⟩
  | dict key value => exact ⟨_, _, by rw [entries], rfl, rfl, by simp [signature]⟩
  | struct first rest => exact ⟨_, _, by rw [entries], rfl, rfl, by simp [signature]; omega⟩

/-! ## Sizes -/

theorem align_le_mul {alignment size k : ℕ} (h : alignment ≤ 3) (hsize : size ≤ 8 * k) :
    align (2 ^ alignment) size ≤ 8 * k := by
  have hpos := Nat.two_pow_pos alignment
  obtain ⟨q, hq⟩ : 2 ^ alignment ∣ 8 * k := Nat.dvd_trans (Nat.pow_dvd_pow 2 h) (Nat.dvd_mul_right 8 k)
  rw [hq] at hsize ⊢
  calc align (2 ^ alignment) size ≤ align (2 ^ alignment) (2 ^ alignment * q) := by
        rw [align, align]
        exact Nat.mul_le_mul_right _ (Nat.div_le_div_right (by omega))
    _ = 2 ^ alignment * q := align_of_dvd (Nat.dvd_mul_right _ _) hpos

theorem DType.alignment_le (type : DType) : type.alignment ≤ 3 := by
  cases type with
  | basic type => exact cDvarAlignment_le _
  | variant => exact Nat.zero_le 3
  | array element => exact Nat.le_succ 2
  | dict key value => exact Nat.le_succ 2
  | struct first rest => exact Nat.le_refl 3

theorem BasicType.fixedSize_le (type : BasicType) : type.fixedSize ≤ 8 := by
  have hall : ∀ c ∈ cDvarBasic, (if (lit "sog").contains c then 0 else if c = byte 'b' then 4 else cDvarSize c) ≤ 8 := by
    decide +kernel
  exact hall type.char (List.contains_iff_mem.mp type.basic)

theorem memberSize_le {size alignment fixedSize k n : ℕ} (h : alignment ≤ 3) (hsize : size ≤ 8 * k)
    (hfixed : fixedSize ≤ 8 * n) : memberSize size alignment fixedSize ≤ 8 * (k + n) := by
  have halign := align_le_mul h hsize
  rw [memberSize]
  split <;> omega

/-- A type of a fixed size takes eight bytes for a character at most. -/
theorem fixedSize_le : (∀ type : DType, type.fixedSize ≤ 8 * type.signature.length) ∧
    ∀ (types : List DType) (size k : ℕ), size ≤ 8 * k →
      DType.membersSize size types ≤ 8 * (k + (DType.signatures types).length) := by
  refine DType.induct (fun type => ?_) (Nat.zero_le _) (fun element ih => Nat.zero_le _) (fun key value ih => Nat.zero_le _)
    (fun first rest ihFirst ihRest => ?_) (fun size k h => h) (fun type types ih ihTypes size k h => ?_)
  · exact type.fixedSize_le
  · have hmembers := ihRest _ _ ihFirst
    rw [DType.fixedSize, DType.signature, List.length_cons, List.length_append, List.length_append]
    omega
  · rw [DType.membersSize, DType.signatures, List.length_append, ← Nat.add_assoc]
    exact ihTypes _ _ (memberSize_le type.alignment_le h ih)

/-! ## Rounds of the parser -/

/-- The end of a round that completed a type. -/
def cDvarTypeTerminal (rest : Bytes) (type : List CDVarType) (this : ℕ) (stack : List ℕ) (depthTuple : ℕ) :
    Except DvarTypeError (List CDVarType) :=
  match cDvarTypeArrays type this stack with
  | (type, _, []) => .ok type
  | (type, this, container :: stack) =>
    cDvarTypeParse rest
      (type.modify container fun t => t.account (typeAt type this) (this = container + 1)) (container :: stack) depthTuple

/-- What a member of a dict entry may be, by the container and the position. -/
def MemberAllowed (c : UInt8) (type : List CDVarType) (stack : List ℕ) : Prop :=
  stack.head?.map (fun container => (typeAt type container).element) = some (byte '\x7b') →
    cDvarTypeDict c type.length (stack.headD 0) = true

section

variable {c : UInt8} {rest : Bytes} {type more : List CDVarType} {entry : CDVarType} {stack : List ℕ} {depthTuple : ℕ}

theorem typeAt_append_cons : typeAt (type ++ entry :: more) type.length = entry := by
  simp [typeAt]

theorem modify_append_cons (f : CDVarType → CDVarType) :
    (type ++ entry :: more).modify type.length f = type ++ f entry :: more := by
  rw [List.modify_eq_take_drop]
  simp

/-- One round, with its last part named. -/
theorem cDvarTypeParse_cons (hallowed : MemberAllowed c type stack) :
    cDvarTypeParse (c :: rest) type stack depthTuple =
    if c = byte '(' || c = byte '\x7b' || c = byte 'a' then
      let depthTuple := if c = byte 'a' then depthTuple else depthTuple + 1
      if cDvarTypeDepthMax < stack.length + 1 || cDvarTypeDepthMax / 2 < depthTuple ||
          cDvarTypeDepthMax / 2 < stack.length + 1 - depthTuple then .error .depthOverflow
      else cDvarTypeParse rest (type ++ [cDvarTypeOpen c]) (type.length :: stack) depthTuple
    else if c = byte '\x7d' || c = byte ')' then
      if stack.head?.map (fun container => (typeAt type container).element) ≠
          some (if c = byte '\x7d' then byte '\x7b' else byte '(') then .error .invalidType
      else cDvarTypeTerminal rest (type ++ [closingEntry c]) (stack.headD 0) stack.tail (depthTuple - 1)
    else match cDvarTypeBuiltin c with
      | none => .error .invalidType
      | some builtin => cDvarTypeTerminal rest (type ++ [builtin]) type.length stack depthTuple := by
  have hcheck : ¬ (stack.head?.map (fun container => (typeAt type container).element) = some (byte '\x7b') &&
      !cDvarTypeDict c type.length (stack.headD 0)) = true := by
    intro hfails
    obtain ⟨hhead, hfalse⟩ := (Bool.and_eq_true _ _).mp hfails
    rw [hallowed (of_decide_eq_true hhead)] at hfalse
    cases hfalse
  rw [cDvarTypeParse]
  dsimp only
  rw [if_neg hcheck]
  rfl

theorem cDvarTypeParse_builtin (hallowed : MemberAllowed c type stack)
    (hc : ¬ (c = byte '(' || c = byte '\x7b' || c = byte 'a') = true) (hc' : ¬ (c = byte '\x7d' || c = byte ')') = true)
    (hbuiltin : cDvarTypeBuiltin c = some entry) : cDvarTypeParse (c :: rest) type stack depthTuple =
      cDvarTypeTerminal rest (type ++ [entry]) type.length stack depthTuple := by
  rw [cDvarTypeParse_cons hallowed, if_neg hc, if_neg hc', hbuiltin]

/-- A container that opens within the limits. -/
theorem cDvarTypeParse_open (hallowed : MemberAllowed c type stack)
    (hc : (c = byte '(' || c = byte '\x7b' || c = byte 'a') = true) {depthTuple' : ℕ}
    (htuple : (if c = byte 'a' then depthTuple else depthTuple + 1) = depthTuple')
    (hdepth : stack.length + 1 - depthTuple' ≤ cDvarTypeDepthMax / 2) (hdepth' : depthTuple' ≤ cDvarTypeDepthMax / 2) :
    cDvarTypeParse (c :: rest) type stack depthTuple =
      cDvarTypeParse rest (type ++ [cDvarTypeOpen c]) (type.length :: stack) depthTuple' := by
  have hlimits : ¬ (cDvarTypeDepthMax < stack.length + 1 || cDvarTypeDepthMax / 2 < depthTuple' ||
      cDvarTypeDepthMax / 2 < stack.length + 1 - depthTuple') = true := by
    rw [cDvarTypeDepthMax] at *
    simp only [Bool.or_eq_true, decide_eq_true_eq]
    omega
  rw [cDvarTypeParse_cons hallowed, if_pos hc]
  dsimp only
  rw [htuple, if_neg hlimits]

theorem memberAllowed_of_ne (h : entry.element ≠ byte '\x7b') :
    MemberAllowed c (type ++ entry :: more) (type.length :: stack) := by
  intro hhead
  rw [List.head?_cons, Option.map_some, typeAt_append_cons] at hhead
  exact absurd (Option.some.inj hhead) h

/-- An array is complete with its element. -/
theorem cDvarTypeTerminal_array {first : CDVarType} {length : ℕ} (hlength : first.length = length) (hfits : length + 1 < 256) :
    cDvarTypeTerminal rest (type ++ ⟨0, 2, byte 'a', 1, false⟩ :: first :: more) (type.length + 1) (type.length :: stack)
        depthTuple =
      cDvarTypeTerminal rest (type ++ ⟨0, 2, byte 'a', length + 1, false⟩ :: first :: more) type.length stack depthTuple := by
  have hfirst : typeAt (type ++ ⟨0, 2, byte 'a', 1, false⟩ :: first :: more) (type.length + 1) = first := by
    simp [typeAt]
  have harrays : cDvarTypeArrays (type ++ ⟨0, 2, byte 'a', 1, false⟩ :: first :: more) (type.length + 1)
      (type.length :: stack) =
      cDvarTypeArrays (type ++ ⟨0, 2, byte 'a', length + 1, false⟩ :: first :: more) type.length stack := by
    rw [cDvarTypeArrays, typeAt_append_cons, if_pos rfl, modify_append_cons, hfirst, hlength]
    dsimp only
    rw [Nat.mod_eq_of_lt (by omega), Nat.add_comm]
  rw [cDvarTypeTerminal, harrays]
  rfl

/-- A tuple goes on with one more member. -/
theorem cDvarTypeTerminal_tuple {first : CDVarType} {before : List CDVarType} (hentry : entry.element ≠ byte 'a') :
    cDvarTypeTerminal rest (type ++ entry :: (before ++ first :: more)) (type.length + 1 + before.length)
        (type.length :: stack) depthTuple =
      cDvarTypeParse rest (type ++ entry.account first before.isEmpty :: (before ++ first :: more)) (type.length :: stack)
        depthTuple := by
  have hfirst : typeAt (type ++ entry :: (before ++ first :: more)) (type.length + 1 + before.length) = first := by
    rw [Nat.add_assoc, Nat.add_comm 1]
    simp [typeAt]
  have hisFirst : decide (type.length + 1 + before.length = type.length + 1) = before.isEmpty := by
    cases before with
    | nil => simp
    | cons head tail => simp
  rw [cDvarTypeTerminal, cDvarTypeArrays, typeAt_append_cons, if_neg hentry]
  dsimp only
  rw [modify_append_cons, hfirst, hisFirst]

/-- A struct is closed. -/
theorem cDvarTypeParse_struct (hentry : entry.element = byte '(') :
    cDvarTypeParse (byte ')' :: rest) (type ++ entry :: more) (type.length :: stack) (depthTuple + 1) =
      cDvarTypeTerminal rest (type ++ entry :: (more ++ [closingEntry (byte ')')])) type.length stack depthTuple := by
  have hallowed : MemberAllowed (byte ')') (type ++ entry :: more) (type.length :: stack) :=
    memberAllowed_of_ne (by rw [hentry]; decide)
  rw [cDvarTypeParse_cons hallowed, if_neg (by decide), if_pos (by decide), List.head?_cons, Option.map_some,
    typeAt_append_cons, hentry, if_neg (by decide), List.append_assoc]
  rfl

/-- A dict entry is closed behind its two members. -/
theorem cDvarTypeParse_entry (hentry : entry.element = byte '\x7b') (hmore : 2 ≤ more.length) :
    cDvarTypeParse (byte '\x7d' :: rest) (type ++ entry :: more) (type.length :: stack) (depthTuple + 1) =
      cDvarTypeTerminal rest (type ++ entry :: (more ++ [closingEntry (byte '\x7d')])) type.length stack depthTuple := by
  have hallowed : MemberAllowed (byte '\x7d') (type ++ entry :: more) (type.length :: stack) := by
    intro _
    have hlength : (type ++ entry :: more).length = type.length + more.length + 1 := by simp; omega
    rw [List.headD_cons, cDvarTypeDict, hlength, if_neg (by omega), if_neg (by omega)]
    rfl
  rw [cDvarTypeParse_cons hallowed, if_neg (by decide), if_pos (by decide), List.head?_cons, Option.map_some,
    typeAt_append_cons, hentry, if_neg (by decide), List.append_assoc]
  rfl

/-- What a member adds to the entry of its tuple. -/
theorem account_eq {this : CDVarType} {size length fixedSize alignment k n : ℕ} {isFirst : Bool}
    (hsize : this.size = fixedSize) (halignment : this.alignment = alignment) (hlength : this.length = n)
    (hle : alignment ≤ 3) (hsize' : size ≤ 8 * k) (hfixed : fixedSize ≤ 8 * n) (hbound : k + n < 256)
    (hlength' : length + n < 256) (hfirst : isFirst = true → size = 0) :
    (⟨size, 3, c, length, false⟩ : CDVarType).account this isFirst =
      ⟨if isFirst then fixedSize else memberSize size alignment fixedSize, 3, c, length + n, false⟩ := by
  have halign := align_le_mul hle hsize'
  rw [CDVarType.account, hsize, halignment, hlength]
  dsimp only
  rw [Nat.mod_eq_of_lt hlength']
  cases isFirst with
  | true =>
    have hzero : align (2 ^ alignment) 0 = 0 := align_of_dvd (Nat.dvd_zero _) (Nat.two_pow_pos _)
    rw [hfirst rfl, hzero, Nat.zero_mod, Nat.zero_add, Nat.mod_eq_of_lt (by omega)]
    by_cases hdynamic : fixedSize = 0
    · simp [hdynamic]
    · simp [hdynamic]
  | false =>
    by_cases hdynamic : fixedSize ≠ 0 ∧ size ≠ 0
    · rw [memberSize, if_pos hdynamic, Nat.mod_eq_of_lt (by omega), Nat.mod_eq_of_lt (by omega)]
      simp [hdynamic.1, hdynamic.2]
    · have hdynamic' : fixedSize ≠ 0 → size = 0 := by simpa using hdynamic
      rw [memberSize, if_neg hdynamic]
      by_cases hfixed' : fixedSize = 0
      · simp [hfixed']
      · simp [hfixed', hdynamic' hfixed']

end

/-! ## Parsed signatures -/

/-- The key of a dict entry, and its value. -/
theorem memberAllowed_key (key : BasicType) {type : List CDVarType} {entry : CDVarType} {stack : List ℕ} :
    MemberAllowed key.char (type ++ [entry]) (type.length :: stack) := by
  intro _
  rw [List.headD_cons, cDvarTypeDict, if_pos (by simp), key.builtin]
  rfl

theorem memberAllowed_value {c : UInt8} {value : DType} (hc : c ∈ value.signature.head?) {type : List CDVarType}
    {entry key : CDVarType} {stack : List ℕ} :
    MemberAllowed c (type ++ entry :: [key]) (type.length :: stack) := by
  intro _
  obtain ⟨d, rest, hsignature, -, -, hd⟩ := value.signature_eq_cons
  rw [hsignature, List.head?_cons, Option.mem_some_iff] at hc
  rw [List.headD_cons, cDvarTypeDict, if_neg (by simp), if_pos (by simp), ← hc]
  exact decide_eq_true hd

/-- What the parser does with one type. -/
def TakesType (t : DType) : Prop := ∀ (rest : Bytes) (type : List CDVarType) (stack : List ℕ) (depthTuple : ℕ),
  depthTuple ≤ stack.length → stack.length - depthTuple + t.arrays ≤ cDvarTypeDepthMax / 2 →
  depthTuple + t.tuples ≤ cDvarTypeDepthMax / 2 → t.signature.length < 256 →
  (∀ c ∈ t.signature.head?, MemberAllowed c type stack) →
  cDvarTypeParse (t.signature ++ rest) type stack depthTuple =
    cDvarTypeTerminal rest (type ++ t.entries) type.length stack depthTuple

/-- The entry of a dict entry with its members behind it. -/
def dictEntry (key : BasicType) (value : DType) : List CDVarType :=
  ⟨memberSize key.fixedSize value.alignment value.fixedSize, 3, byte '\x7b', value.signature.length + 3, false⟩ ::
    key.entry :: (value.entries ++ [closingEntry (byte '\x7d')])

/-- The parser takes a dict entry inside of an array. -/
theorem cDvarTypeParse_dict (key : BasicType) {value : DType} (ih : TakesType value) {rest : Bytes}
    {type : List CDVarType} {stack : List ℕ} {depthTuple : ℕ} (hallowed : MemberAllowed (byte '\x7b') type stack)
    (hdepth : depthTuple ≤ stack.length) (harrays : stack.length - depthTuple + value.arrays ≤ cDvarTypeDepthMax / 2)
    (htuples : depthTuple + 1 + value.tuples ≤ cDvarTypeDepthMax / 2) (hlength : value.signature.length + 3 < 256) :
    cDvarTypeParse (byte '\x7b' :: key.char :: (value.signature ++ byte '\x7d' :: rest)) type stack depthTuple =
      cDvarTypeTerminal rest (type ++ dictEntry key value) type.length stack depthTuple := by
  obtain ⟨entry, more, hentries, hsize, halignment, hentry⟩ := value.entries_eq_cons
  obtain ⟨ha, ho, hc, hb, he, -⟩ := key.char_ne
  have hfixed := fixedSize_le.1 value
  have hkey := key.fixedSize_le
  have hopened : type ++ [cDvarTypeOpen (byte '\x7b')] ++ [key.entry] =
      type ++ ⟨0, 3, byte '\x7b', 2, false⟩ :: ([] ++ key.entry :: []) := by simp; rfl
  have hposition : (type ++ [cDvarTypeOpen (byte '\x7b')]).length = type.length + 1 + ([] : List CDVarType).length := by simp
  have haccount : (⟨0, 3, byte '\x7b', 2, false⟩ : CDVarType).account key.entry true =
      ⟨key.fixedSize, 3, byte '\x7b', 2 + 1, false⟩ := by
    have heq := @account_eq (byte '\x7b') key.entry 0 2 key.fixedSize (cDvarAlignment key.char) 0 1 true rfl rfl rfl
      (cDvarAlignment_le _) (Nat.zero_le _) hkey (by decide) (by decide) fun _ => rfl
    rwa [if_pos rfl] at heq
  rw [cDvarTypeParse_open hallowed (by decide) (if_neg (by decide)) (by omega) (by omega),
    cDvarTypeParse_builtin (memberAllowed_key key) (by simp [ha, ho, hb]) (by simp [hc, he]) key.builtin, hopened, hposition,
    cDvarTypeTerminal_tuple (by decide), List.isEmpty_nil, haccount, List.nil_append]
  have hvalue : (type ++ ⟨key.fixedSize, 3, byte '\x7b', 2 + 1, false⟩ :: [key.entry] : List CDVarType).length =
      type.length + 1 + [key.entry].length := by simp
  rw [ih _ _ _ _ (by rw [List.length_cons]; omega) (by rw [List.length_cons]; omega) htuples (by omega)
      fun c hc => memberAllowed_value hc,
    hvalue, hentries, List.append_assoc, List.cons_append,
    cDvarTypeTerminal_tuple (show byte '\x7b' ≠ byte 'a' by decide), List.isEmpty_cons,
    account_eq hsize halignment hentry value.alignment_le (by omega : key.fixedSize ≤ 8 * 1) hfixed (by omega) (by omega)
      (fun heq => absurd heq Bool.false_ne_true), if_neg Bool.false_ne_true, ← hentries,
    cDvarTypeParse_entry rfl (by rw [List.length_append, length_entries]; exact Nat.add_le_add_left value.signature_length_pos 1),
    dictEntry, Nat.add_comm value.signature.length 3]
  rfl

/-- The parser takes a type within the limits where it may stand, and several members of a struct. -/
theorem cDvarTypeParse_signature :
    (∀ t : DType, TakesType t) ∧
    ∀ (ts : List DType) (rest : Bytes) (type before : List CDVarType) (stack : List ℕ) (depthTuple size length : ℕ),
      before ≠ [] → depthTuple ≤ stack.length →
      stack.length - depthTuple + DType.arraysOf ts ≤ cDvarTypeDepthMax / 2 →
      depthTuple + 1 + DType.tuplesOf ts ≤ cDvarTypeDepthMax / 2 → length + (DType.signatures ts).length < 256 →
      before.length + (DType.signatures ts).length < 256 → size ≤ 8 * before.length →
      cDvarTypeParse (DType.signatures ts ++ rest) (type ++ ⟨size, 3, byte '(', length, false⟩ :: before)
          (type.length :: stack) (depthTuple + 1) =
        cDvarTypeParse rest (type ++ ⟨DType.membersSize size ts, 3, byte '(', length + (DType.signatures ts).length, false⟩ ::
          (before ++ DType.entriesOf ts)) (type.length :: stack) (depthTuple + 1) := by
  refine DType.induct (fun key rest type stack depthTuple hdepth harrays htuples hlength hallowed => ?_)
    (fun rest type stack depthTuple hdepth harrays htuples hlength hallowed => ?_)
    (fun element ih rest type stack depthTuple hdepth harrays htuples hlength hallowed => ?_)
    (fun key value ih rest type stack depthTuple hdepth harrays htuples hlength hallowed => ?_)
    (fun first ts ihFirst ihRest rest type stack depthTuple hdepth harrays htuples hlength hallowed => ?_)
    (fun rest type before stack depthTuple size length hbefore hdepth harrays htuples hlength hbytes hsize => ?_)
    (fun t ts ih ihTypes rest type before stack depthTuple size length hbefore hdepth harrays htuples hlength hbytes
      hsize => ?_)
  · obtain ⟨ha, ho, hc, hb, he, -⟩ := key.char_ne
    rw [DType.signature] at *
    exact cDvarTypeParse_builtin (hallowed _ rfl) (by simp [ha, ho, hb]) (by simp [hc, he]) key.builtin
  · rw [DType.signature] at *
    exact cDvarTypeParse_builtin (hallowed _ rfl) (by decide) (by decide) rfl
  · obtain ⟨first, more, hentries, -, -, hfirst⟩ := element.entries_eq_cons
    rw [DType.signature] at *
    rw [DType.arrays] at harrays
    rw [DType.tuples] at htuples
    rw [List.length_cons] at hlength
    rw [List.cons_append, cDvarTypeParse_open (hallowed _ rfl) (by decide) (if_pos rfl) (by omega) (by omega),
      ih rest _ _ _ (by rw [List.length_cons]; omega) (by rw [List.length_cons]; omega) htuples (by omega)
        fun c _ => memberAllowed_of_ne (by decide),
      List.append_assoc, List.length_append, hentries]
    rw [DType.entries, hentries]
    exact cDvarTypeTerminal_array hfirst (by omega)
  · rw [DType.signature] at *
    rw [DType.arrays] at harrays
    rw [DType.tuples] at htuples
    simp only [List.length_cons, List.length_append, List.length_nil] at hlength
    have hopened : type ++ [cDvarTypeOpen (byte 'a')] ++ dictEntry key value =
        type ++ ⟨0, 2, byte 'a', 1, false⟩ :: dictEntry key value := by simp; rfl
    rw [List.cons_append, cDvarTypeParse_open (hallowed _ rfl) (by decide) (if_pos rfl) (by omega) (by omega),
      List.cons_append, List.cons_append, List.append_assoc]
    have hallowed' : MemberAllowed (byte '\x7b') (type ++ [cDvarTypeOpen (byte 'a')]) (type.length :: stack) :=
      memberAllowed_of_ne (by decide)
    have hdict := @cDvarTypeParse_dict key value ih rest (type ++ [cDvarTypeOpen (byte 'a')]) (type.length :: stack)
      depthTuple hallowed' (by rw [List.length_cons]; omega) (by rw [List.length_cons]; omega) (by omega) (by omega)
    refine hdict.trans ?_
    rw [hopened, List.length_append]
    exact cDvarTypeTerminal_array rfl (by omega)
  · obtain ⟨entry, more, hentries, hsize, halignment, hentry⟩ := first.entries_eq_cons
    have hfixed := fixedSize_le.1 first
    rw [DType.signature] at *
    rw [DType.arrays] at harrays
    rw [DType.tuples] at htuples
    simp only [List.length_cons, List.length_append, List.length_nil] at hlength
    have hopened : type ++ [cDvarTypeOpen (byte '(')] ++ first.entries =
        type ++ ⟨0, 3, byte '(', 2, false⟩ :: ([] ++ entry :: more) := by rw [hentries]; simp; rfl
    have hposition : (type ++ [cDvarTypeOpen (byte '(')]).length = type.length + 1 + ([] : List CDVarType).length := by simp
    rw [List.cons_append, cDvarTypeParse_open (hallowed _ rfl) (by decide) (if_neg (by decide)) (by omega) (by omega),
      List.append_assoc, List.append_assoc,
      ihFirst _ _ _ _ (by rw [List.length_cons]; omega) (by rw [List.length_cons]; omega) (by omega) (by omega)
        fun c _ => memberAllowed_of_ne (by decide),
      hopened, hposition, cDvarTypeTerminal_tuple (by decide),
      account_eq hsize halignment hentry first.alignment_le (Nat.zero_le (8 * 0)) hfixed (by omega) (by omega) fun _ => rfl,
      List.isEmpty_nil, if_pos rfl, List.nil_append, ← hentries,
      ihRest _ type first.entries stack depthTuple _ _ (by rw [hentries]; exact List.cons_ne_nil _ _) hdepth (by omega)
        (by omega) (by omega) (by rw [length_entries]; omega) (by rw [length_entries]; exact hfixed)]
    rw [List.singleton_append, cDvarTypeParse_struct rfl, DType.entries, Nat.add_comm 2, Nat.add_right_comm]
  · rw [DType.signatures, DType.entriesOf, DType.membersSize, List.append_nil]
    rfl
  · obtain ⟨first, more, hentries, hfirstSize, hfirstAlignment, hfirst⟩ := t.entries_eq_cons
    have hfixed := fixedSize_le.1 t
    rw [DType.arraysOf] at harrays
    rw [DType.tuplesOf] at htuples
    rw [DType.signatures, List.length_append] at hlength hbytes
    have hposition : (type ++ ⟨size, 3, byte '(', length, false⟩ :: before : List CDVarType).length =
        type.length + 1 + before.length := by simp; omega
    have hisEmpty : before.isEmpty = false := by simpa using hbefore
    rw [DType.signatures, List.append_assoc,
      ih _ _ _ _ (by rw [List.length_cons]; omega) (by rw [List.length_cons]; omega) (by omega) (by omega)
        fun c _ => memberAllowed_of_ne (show byte '(' ≠ byte '\x7b' by decide),
      hposition, hentries, List.append_assoc, List.cons_append,
      cDvarTypeTerminal_tuple (show byte '(' ≠ byte 'a' by decide), account_eq hfirstSize hfirstAlignment hfirst
        t.alignment_le hsize hfixed (by omega) (by omega) (fun heq => by rw [hisEmpty] at heq; cases heq), hisEmpty, if_neg Bool.false_ne_true, ← hentries]
    have hlength' : (before ++ t.entries).length = before.length + t.signature.length := by
      rw [List.length_append, length_entries]
    rw [ihTypes rest type (before ++ t.entries) stack depthTuple _ _ (by simp [hbefore]) hdepth (by omega) (by omega)
      (by omega) (by omega) (by rw [hlength']; exact memberSize_le t.alignment_le hsize hfixed)]
    rw [DType.membersSize, DType.entriesOf, List.append_assoc, List.length_append, Nat.add_assoc]

section

variable {c : UInt8} {rest : Bytes} {nType depth : ℕ}

theorem cDvarTypeCount_leaf (hlength : nType < cDvarTypeLengthMax) (ha : c ≠ byte 'a')
    (hopen : ¬ (c = byte '(' || c = byte '\x7b') = true) (hclose : ¬ (c = byte ')' || c = byte '\x7d') = true) :
    cDvarTypeCount (c :: rest) nType depth =
      if depth = 0 then .ok (nType + 1) else cDvarTypeCount rest (nType + 1) depth := by
  rw [cDvarTypeCount, if_neg (by omega), if_neg (by simp [hclose])]
  dsimp only
  rw [if_neg hopen, if_neg hclose]
  by_cases hdepth : depth = 0 <;> simp [hdepth, ha]

theorem cDvarTypeCount_array (hlength : nType < cDvarTypeLengthMax) :
    cDvarTypeCount (byte 'a' :: rest) nType depth = cDvarTypeCount rest (nType + 1) depth := by
  rw [cDvarTypeCount, if_neg (by omega), if_neg fun h => absurd ((Bool.and_eq_true _ _).mp h).1 (by decide)]
  dsimp only
  rw [if_pos (by simp), if_neg (by decide), if_neg (by decide)]

theorem cDvarTypeCount_open (hlength : nType < cDvarTypeLengthMax) (hopen : (c = byte '(' || c = byte '\x7b') = true)
    (hclose : ¬ (c = byte ')' || c = byte '\x7d') = true) :
    cDvarTypeCount (c :: rest) nType depth = cDvarTypeCount rest (nType + 1) (depth + 1) := by
  rw [cDvarTypeCount, if_neg (by omega), if_neg (by simp [hclose])]
  dsimp only
  rw [if_pos hopen, if_pos (by simp)]

theorem cDvarTypeCount_close (hlength : nType < cDvarTypeLengthMax) (ha : c ≠ byte 'a')
    (hopen : ¬ (c = byte '(' || c = byte '\x7b') = true) (hclose : (c = byte ')' || c = byte '\x7d') = true) :
    cDvarTypeCount (c :: rest) nType (depth + 1) =
      if depth = 0 then .ok (nType + 1) else cDvarTypeCount rest (nType + 1) depth := by
  rw [cDvarTypeCount, if_neg (by omega), if_neg (by simp)]
  dsimp only
  rw [if_neg hopen, if_pos hclose, Nat.add_sub_cancel]
  by_cases hdepth : depth = 0 <;> simp [hdepth, ha]

end

/-- The first pass counts the characters of a type. -/
theorem cDvarTypeCount_signature :
    (∀ (t : DType) (rest : Bytes) (nType depth : ℕ), nType + t.signature.length ≤ cDvarTypeLengthMax →
      cDvarTypeCount (t.signature ++ rest) nType depth =
        if depth = 0 then .ok (nType + t.signature.length) else cDvarTypeCount rest (nType + t.signature.length) depth) ∧
    ∀ (ts : List DType) (rest : Bytes) (nType depth : ℕ), nType + (DType.signatures ts).length ≤ cDvarTypeLengthMax →
      cDvarTypeCount (DType.signatures ts ++ rest) nType (depth + 1) =
        cDvarTypeCount rest (nType + (DType.signatures ts).length) (depth + 1) := by
  refine DType.induct (fun key rest nType depth hlength => ?_) (fun rest nType depth hlength => ?_)
    (fun element ih rest nType depth hlength => ?_) (fun key value ih rest nType depth hlength => ?_)
    (fun first ts ihFirst ihRest rest nType depth hlength => ?_) (fun rest nType depth hlength => rfl)
    (fun t ts ih ihTypes rest nType depth hlength => ?_)
  · obtain ⟨ha, ho, hc, hb, he, -⟩ := key.char_ne
    rw [DType.signature] at *
    exact cDvarTypeCount_leaf (Nat.lt_of_succ_le hlength) ha (by simp [ho, hb]) (by simp [hc, he])
  · rw [DType.signature] at *
    exact cDvarTypeCount_leaf (Nat.lt_of_succ_le hlength) (by decide) (by decide) (by decide)
  · rw [DType.signature, List.length_cons] at *
    rw [List.cons_append, cDvarTypeCount_array (by omega), ih rest _ _ (by omega), Nat.add_right_comm, Nat.add_assoc]
  · obtain ⟨ha, ho, hc, hb, he, -⟩ := key.char_ne
    rw [DType.signature] at *
    simp only [List.length_cons, List.length_append, List.length_nil] at *
    simp only [List.cons_append, List.append_assoc, List.nil_append]
    rw [cDvarTypeCount_array (by omega), cDvarTypeCount_open (by omega) (by decide) (by decide),
      cDvarTypeCount_leaf (by omega) ha (by simp [ho, hb]) (by simp [hc, he]), if_neg (Nat.succ_ne_zero _),
      ih _ _ _ (by omega), if_neg (Nat.succ_ne_zero _),
      cDvarTypeCount_close (by omega) (by decide) (by decide) (by decide)]
    have hcount : nType + 1 + 1 + 1 + value.signature.length + 1 = nType + (value.signature.length + (0 + 1) + 1 + 1 + 1) := by
      omega
    rw [hcount]
  · rw [DType.signature] at *
    simp only [List.length_cons, List.length_append, List.length_nil] at *
    simp only [List.cons_append, List.append_assoc, List.nil_append]
    rw [cDvarTypeCount_open (by omega) (by decide) (by decide), ihFirst _ _ _ (by omega), if_neg (Nat.succ_ne_zero _),
      ihRest _ _ _ (by omega), cDvarTypeCount_close (by omega) (by decide) (by decide) (by decide)]
    have hcount : nType + 1 + first.signature.length + (DType.signatures ts).length + 1 =
        nType + (first.signature.length + (DType.signatures ts).length + (0 + 1) + 1) := by omega
    rw [hcount]
  · rw [DType.signatures, List.length_append] at *
    rw [List.append_assoc, ih _ _ _ (by omega), if_neg (Nat.succ_ne_zero _), ihTypes _ _ _ (by omega), Nat.add_assoc]

/-- The type parser finds the array of the first type of a signature: for every type within the limits of the protocol
and whatever follows it, no check fails, no field of an entry overflows, and the entries are those of the type, one for
every character, the first of them with the length of the whole type. -/
theorem cDvarTypeNewFromSignature_entries (type : DType) (h : type.Fits) (rest : Bytes) :
    cDvarTypeNewFromSignature (type.signature ++ rest) = .ok type.entries ∧
      type.entries.map CDVarType.element = type.signature ∧
      type.entries.head?.map CDVarType.length = some type.signature.length := by
  obtain ⟨entry, more, hentries, -, -, hentry⟩ := type.entries_eq_cons
  have hlength := h.length
  refine ⟨?_, map_element_entries.1 type, by rw [hentries, List.head?_cons, Option.map_some, hentry]⟩
  have hcount := cDvarTypeCount_signature.1 type rest 0 0 (by rwa [Nat.zero_add])
  have hparse := cDvarTypeParse_signature.1 type [] [] [] 0 (Nat.le_refl _) (by simpa using h.arrays)
    (by simpa using h.tuples) (Nat.lt_succ_of_le hlength) fun c _ heq => by cases heq
  rw [if_pos rfl, Nat.zero_add] at hcount
  rw [List.append_nil, List.nil_append] at hparse
  rw [cDvarTypeNewFromSignature, hcount]
  dsimp only
  rw [List.take_left, hparse]
  rfl

/-- A dict of structs: `a{s(yx)}`. -/
def sampleType : DType :=
  .dict ⟨byte 's', by decide⟩ (.struct (.basic ⟨byte 'y', by decide⟩) [.basic ⟨byte 'x', by decide⟩])

/-- Behind the dict stands one more type. -/
theorem cDvarTypeNewFromSignature_entries_dict :
    cDvarTypeNewFromSignature (sampleType.signature ++ lit "t") = .ok sampleType.entries ∧
      sampleType.entries.map CDVarType.element = sampleType.signature ∧
      sampleType.entries.head?.map CDVarType.length = some sampleType.signature.length :=
  cDvarTypeNewFromSignature_entries sampleType ⟨by decide, by decide, by decide⟩ (lit "t")

end DbusBroker
