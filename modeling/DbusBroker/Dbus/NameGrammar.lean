import DbusBroker.Dbus.Protocol

/-!
# The grammars of names

A name is a list of elements with dots between them. The validators of `dbus/protocol.c` read it byte by byte
with two flags; the strings that they accept are those of the grammars.
-/

namespace DbusBroker

/-- A byte of an element: a letter, a digit or one of some more bytes. -/
def isElementByte (extra : UInt8 → Bool) (c : UInt8) : Bool := isLetter c || isDigit c || extra c

/-- An element of a name: letters, digits and some more bytes. A digit may be at its start, or not. -/
structure IsElement (extra : UInt8 → Bool) (digitFirst : Bool) (element : Bytes) : Prop where
  nonempty : element ≠ []
  bytes : ∀ c ∈ element, isElementByte extra c = true
  first : digitFirst = false → ∀ c rest, element = c :: rest → isDigit c = false

/-- Elements with dots between them, at least so many. -/
def Dotted (extra : UInt8 → Bool) (digitFirst : Bool) (least : ℕ) (s : Bytes) : Prop :=
  ∃ elements : List Bytes, least ≤ elements.length ∧ (∀ e ∈ elements, IsElement extra digitFirst e) ∧
    s = [byte '.'].intercalate elements

/-- The bytes of a bus name besides letters and digits. -/
def nameExtra (c : UInt8) : Bool := c = byte '_' || c = byte '-'

/-- The byte of an interface or a member besides letters and digits. -/
def memberExtra (c : UInt8) : Bool := c = byte '_'

/-- A unique name: a colon and elements. -/
def IsUniqueName (least : ℕ) (s : Bytes) : Prop := ∃ rest, s = byte ':' :: rest ∧ Dotted nameExtra true least rest

/-- A well-known name: elements that do not start with a digit. -/
def IsWellKnownName (least : ℕ) (s : Bytes) : Prop := Dotted nameExtra false least s

section Elements

variable {extra : UInt8 → Bool} {digitFirst hasDot dot hasDot' : Bool} {e s : Bytes} {es : List Bytes} {c : UInt8}

/-- Elements behind a first one, with a dot in front of each. -/
theorem intercalate_dot_cons (e : Bytes) (es : List Bytes) :
    [byte '.'].intercalate (e :: es) = e ++ es.flatMap (byte '.' :: ·) := by
  induction es generalizing e with
  | nil => rw [List.intercalate_singleton, List.flatMap_nil, List.append_nil]
  | cons f fs ih =>
    rw [List.intercalate_cons_cons, ih, List.flatMap_cons, List.append_assoc]
    rfl

/-- The dot is neither a letter nor a digit. -/
theorem ne_dot_of_isElementByte (hextra : extra (byte '.') = false)
    (h : isElementByte extra c = true) : c ≠ byte '.' := by
  intro heq
  have hdot : (isLetter (byte '.') || isDigit (byte '.')) = false := by decide
  rw [isElementByte, heq, hdot, hextra] at h
  cases h

/-- A letter is no digit. -/
theorem isLetter_eq_false_of_isDigit (h : isDigit c = true) : isLetter c = false := by
  have hall : ∀ n, n < 256 → isDigit (UInt8.ofNat n) = true → isLetter (UInt8.ofNat n) = false := by decide +kernel
  have hc := hall c.toNat (UInt8.toNat_lt c)
  rw [UInt8.ofNat_toNat] at hc
  exact hc h

/-- The loop takes a byte of an element that is not the first of its element. -/
theorem validateElements_byte (hextra : extra (byte '.') = false)
    (hc : isElementByte extra c = true) (rest : Bytes) (hasDot : Bool) :
    validateElements extra digitFirst (c :: rest) hasDot false = validateElements extra digitFirst rest hasDot false := by
  have hcondition : (isLetter c || (isDigit c && (!false || digitFirst)) || extra c) = true := by
    rw [Bool.not_false, Bool.true_or, Bool.and_true]
    exact hc
  rw [validateElements, if_neg (ne_dot_of_isElementByte hextra hc), if_pos hcondition]

/-- The loop takes bytes of an element behind its first one. -/
theorem validateElements_bytes (hextra : extra (byte '.') = false)
    (he : ∀ c ∈ e, isElementByte extra c = true) (rest : Bytes) (hasDot : Bool) :
    validateElements extra digitFirst (e ++ rest) hasDot false = validateElements extra digitFirst rest hasDot false := by
  induction e with
  | nil => rfl
  | cons c tail ih =>
    rw [List.cons_append, validateElements_byte hextra (he c List.mem_cons_self)]
    exact ih fun d hd => he d (List.mem_cons_of_mem c hd)

/-- The loop takes an element. -/
theorem IsElement.validateElements (hextra : extra (byte '.') = false) (he : IsElement extra digitFirst e)
    (rest : Bytes) (hasDot : Bool) :
    validateElements extra digitFirst (e ++ rest) hasDot true =
      DbusBroker.validateElements extra digitFirst rest hasDot false := by
  cases e with
  | nil => exact absurd rfl he.nonempty
  | cons c tail =>
    have hc := he.bytes c List.mem_cons_self
    have hcondition : (isLetter c || (isDigit c && (!true || digitFirst)) || extra c) = true := by
      cases hdigitFirst : digitFirst with
      | true =>
        rw [Bool.or_true, Bool.and_true]
        exact hc
      | false =>
        have hdigit := he.first hdigitFirst c tail rfl
        rw [isElementByte, hdigit] at hc
        rw [hdigit]
        exact hc
    rw [List.cons_append, DbusBroker.validateElements, if_neg (ne_dot_of_isElementByte hextra hc), if_pos hcondition]
    exact validateElements_bytes hextra (fun d hd => he.bytes d (List.mem_cons_of_mem c hd)) rest hasDot

/-- The loop takes elements that follow one, and says whether there are any. -/
theorem validateElements_dotted (hextra : extra (byte '.') = false) (hes : ∀ e ∈ es, IsElement extra digitFirst e)
    (hasDot : Bool) : validateElements extra digitFirst (es.flatMap (byte '.' :: ·)) hasDot false =
      some (hasDot || !es.isEmpty, false) := by
  induction es generalizing hasDot with
  | nil =>
    rw [List.flatMap_nil, validateElements, List.isEmpty_nil, Bool.not_true, Bool.or_false]
  | cons e es ih =>
    rw [List.flatMap_cons, List.cons_append, validateElements, if_pos rfl, if_neg Bool.false_ne_true,
      (hes e List.mem_cons_self).validateElements hextra, ih fun f hf => hes f (List.mem_cons_of_mem e hf),
      Bool.true_or, List.isEmpty_cons, Bool.not_false, Bool.or_true]

/-- What the loop accepts is the end of an element and more elements. Behind a dot the element is a whole one. -/
theorem exists_of_validateElements (hdigits : ∀ c, isDigit c = true → extra c = false)
    (h : validateElements extra digitFirst s hasDot dot = some (hasDot', false)) :
    ∃ (e : Bytes) (es : List Bytes), s = e ++ es.flatMap (byte '.' :: ·) ∧ (∀ f ∈ es, IsElement extra digitFirst f) ∧
      hasDot' = (hasDot || !es.isEmpty) ∧ (∀ c ∈ e, isElementByte extra c = true) ∧
      (dot = true → IsElement extra digitFirst e) := by
  induction s generalizing hasDot dot with
  | nil =>
    rw [validateElements] at h
    obtain ⟨rfl, rfl⟩ := Prod.mk.inj (Option.some.inj h)
    exact ⟨[], [], rfl, fun f hf => absurd hf List.not_mem_nil, (Bool.or_false hasDot).symm,
      fun c hc => absurd hc List.not_mem_nil, fun hdot => absurd hdot Bool.false_ne_true⟩
  | cons c rest ih =>
    rw [validateElements] at h
    by_cases hcdot : c = byte '.'
    · cases dot with
      | true =>
        rw [if_pos hcdot, if_pos rfl] at h
        cases h
      | false =>
        rw [if_pos hcdot, if_neg Bool.false_ne_true] at h
        obtain ⟨e, es, hrest, hes, hhasDot, hbytes, hwhole⟩ := ih h
        refine ⟨[], e :: es, ?_, ?_, ?_, fun d hd => absurd hd List.not_mem_nil,
          fun hdot => absurd hdot Bool.false_ne_true⟩
        · rw [List.nil_append, List.flatMap_cons, hrest, hcdot]
          rfl
        · exact List.forall_mem_cons.mpr ⟨hwhole rfl, hes⟩
        · rw [hhasDot, Bool.true_or, List.isEmpty_cons, Bool.not_false, Bool.or_true]
    · rw [if_neg hcdot] at h
      by_cases hcondition : (isLetter c || (isDigit c && (!dot || digitFirst)) || extra c) = true
      · rw [if_pos hcondition] at h
        obtain ⟨e, es, hrest, hes, hhasDot, hbytes, hwhole⟩ := ih h
        have hc : isElementByte extra c = true := by
          cases hdigit : isDigit c with
          | true => rw [isElementByte, hdigit, Bool.or_true, Bool.true_or]
          | false =>
            rw [hdigit, Bool.false_and] at hcondition
            rw [isElementByte, hdigit]
            exact hcondition
        have hall : ∀ d ∈ c :: e, isElementByte extra d = true := List.forall_mem_cons.mpr ⟨hc, hbytes⟩
        refine ⟨c :: e, es, ?_, hes, hhasDot, hall, fun hdot => ⟨List.cons_ne_nil c e, hall, ?_⟩⟩
        · rw [hrest, List.cons_append]
        · intro hdigitFirst d tail heq
          rw [← (List.cons.inj heq).1]
          cases hdigit : isDigit c with
          | false => rfl
          | true =>
            rw [isLetter_eq_false_of_isDigit hdigit, hdigits c hdigit, hdot, hdigitFirst, hdigit] at hcondition
            exact hcondition.symm
      · rw [if_neg hcondition] at h
        cases h

/-- The loop accepts elements with dots between them, and says whether there are two. -/
theorem validateElements_eq_some_iff (hextra : extra (byte '.') = false)
    (hdigits : ∀ c, isDigit c = true → extra c = false) :
    validateElements extra digitFirst s false true = some (hasDot, false) ↔
      ∃ elements : List Bytes, elements ≠ [] ∧ (∀ e ∈ elements, IsElement extra digitFirst e) ∧
        s = [byte '.'].intercalate elements ∧ hasDot = decide (2 ≤ elements.length) := by
  have hdecide (e : Bytes) (es : List Bytes) : (!es.isEmpty) = decide (2 ≤ (e :: es).length) := by
    cases es with
    | nil => rfl
    | cons f fs => exact (decide_eq_true (Nat.le_add_left 2 fs.length)).symm
  constructor
  · intro h
    obtain ⟨e, es, hs, hes, hhasDot, _, hwhole⟩ := exists_of_validateElements hdigits h
    refine ⟨e :: es, List.cons_ne_nil e es, List.forall_mem_cons.mpr ⟨hwhole rfl, hes⟩, ?_, ?_⟩
    · rw [intercalate_dot_cons, hs]
    · rw [hhasDot, Bool.false_or, hdecide e]
  · intro h
    obtain ⟨elements, hne, hall, hs, hhasDot⟩ := h
    cases elements with
    | nil => exact absurd rfl hne
    | cons e es =>
      rw [hs, intercalate_dot_cons, (hall e List.mem_cons_self).validateElements hextra,
        validateElements_dotted hextra fun f hf => hall f (List.mem_cons_of_mem e hf), hhasDot, Bool.false_or, hdecide e]

/-- The loop and the test behind it, with or without the need of a dot. -/
theorem validateElements_any_iff (hextra : extra (byte '.') = false)
    (hdigits : ∀ c, isDigit c = true → extra c = false) (single : Bool) :
    ((validateElements extra digitFirst s false true).any fun flags => (flags.1 || single) && !flags.2) = true ↔
      Dotted extra digitFirst (if single then 1 else 2) s := by
  constructor
  · intro h
    obtain ⟨flags, hloop, htest⟩ := (Option.any_eq_true _ _).mp h
    rw [Bool.and_eq_true, Bool.not_eq_true'] at htest
    have hflags : flags = (flags.1, false) := Prod.ext rfl htest.2
    rw [hflags] at hloop
    obtain ⟨elements, hne, hall, hs, hhasDot⟩ := (validateElements_eq_some_iff hextra hdigits).mp hloop
    refine ⟨elements, ?_, hall, hs⟩
    cases single with
    | true => exact List.length_pos_iff.mpr hne
    | false =>
      rw [Bool.or_false, hhasDot, decide_eq_true_eq] at htest
      exact htest.1
  · intro h
    obtain ⟨elements, hlength, hall, hs⟩ := h
    have hne : elements ≠ [] := by
      intro heq
      rw [heq] at hlength
      cases single with
      | true => exact absurd hlength (Nat.not_succ_le_zero 0)
      | false => exact absurd hlength (Nat.not_succ_le_zero 1)
    rw [(validateElements_eq_some_iff hextra hdigits).mpr ⟨elements, hne, hall, hs, rfl⟩, Option.any_some, Bool.not_false,
      Bool.and_true]
    cases single with
    | true => exact Bool.or_true _
    | false =>
      rw [Bool.or_false]
      exact decide_eq_true hlength

end Elements

section Validators

variable {s : Bytes} {c : UInt8}

/-- Neither the dot nor a digit is one of the other bytes of a bus name. -/
theorem nameExtra_spares : nameExtra (byte '.') = false ∧ ∀ c, isDigit c = true → nameExtra c = false := by
  refine ⟨by decide, fun c hc => ?_⟩
  have hall : ∀ n, n < 256 → isDigit (UInt8.ofNat n) = true → nameExtra (UInt8.ofNat n) = false := by decide +kernel
  have hbyte := hall c.toNat (UInt8.toNat_lt c)
  rw [UInt8.ofNat_toNat] at hbyte
  exact hbyte hc

/-- Neither the dot nor a digit is the other byte of a member. -/
theorem memberExtra_spares : memberExtra (byte '.') = false ∧ ∀ c, isDigit c = true → memberExtra c = false := by
  refine ⟨by decide, fun c hc => ?_⟩
  cases hextra : memberExtra c with
  | false => rfl
  | true =>
    rw [decide_eq_true_iff.mp hextra] at hc
    exact absurd hc (by decide)

/-- A well-known name does not start with a colon. -/
theorem not_isWellKnownName_colon (least : ℕ) (rest : Bytes) : ¬ IsWellKnownName (least + 1) (byte ':' :: rest) := by
  intro h
  obtain ⟨elements, hlength, hall, hs⟩ := h
  cases elements with
  | nil => exact absurd hlength (Nat.not_succ_le_zero least)
  | cons e es =>
    have he := hall e List.mem_cons_self
    rw [intercalate_dot_cons] at hs
    cases e with
    | nil => exact he.nonempty rfl
    | cons c tail =>
      have hc := he.bytes c List.mem_cons_self
      rw [← (List.cons.inj hs).1] at hc
      exact absurd hc (by decide)

/-- `dbus_validate_name_common` reads the bytes behind a colon. -/
theorem dbusValidateNameCommon_colon (rest : Bytes) (single : Bool) : dbusValidateNameCommon (byte ':' :: rest) single =
    (decide ((byte ':' :: rest).length ≤ 255) &&
      (validateElements nameExtra true rest false true).any fun flags => (flags.1 || single) && !flags.2) := by
  rw [dbusValidateNameCommon]
  by_cases hlength : 255 < (byte ':' :: rest).length
  · rw [if_pos hlength, decide_eq_false (Nat.not_le.mpr hlength), Bool.false_and]
  · rw [if_neg hlength, decide_eq_true (Nat.not_lt.mp hlength), Bool.true_and]
    dsimp only
    rw [if_pos rfl]
    rw [show (fun c => decide (c = byte '_') || decide (c = byte '-')) = nameExtra from rfl]
    cases validateElements nameExtra true rest false true with
    | none => rfl
    | some flags => rfl

/-- `dbus_validate_name_common` reads all bytes of a string without a colon in front. -/
theorem dbusValidateNameCommon_of_head?_ne (hs : s.head? ≠ some (byte ':')) (single : Bool) :
    dbusValidateNameCommon s single = (decide (s.length ≤ 255) &&
      (validateElements nameExtra false s false true).any fun flags => (flags.1 || single) && !flags.2) := by
  rw [dbusValidateNameCommon.eq_def]
  by_cases hlength : 255 < s.length
  · rw [if_pos hlength, decide_eq_false (Nat.not_le.mpr hlength), Bool.false_and]
  · rw [if_neg hlength, decide_eq_true (Nat.not_lt.mp hlength), Bool.true_and,
      show (fun c => decide (c = byte '_') || decide (c = byte '-')) = nameExtra from rfl]
    cases s with
    | nil => rfl
    | cons c rest =>
      have hc : c ≠ byte ':' := fun heq => hs (congrArg some heq)
      dsimp only
      rw [if_neg hc]
      dsimp only
      cases validateElements nameExtra false (c :: rest) false true with
      | none => rfl
      | some flags => rfl

/-- The names that `dbus_validate_name_common` accepts. -/
theorem dbusValidateNameCommon_iff (s : Bytes) (single : Bool) : dbusValidateNameCommon s single = true ↔
    s.length ≤ 255 ∧ (IsUniqueName (if single then 1 else 2) s ∨ IsWellKnownName (if single then 1 else 2) s) := by
  obtain ⟨hdot, hdigits⟩ := nameExtra_spares
  by_cases hhead : s.head? = some (byte ':')
  · obtain ⟨rest, rfl⟩ := List.head?_eq_some_iff.mp hhead
    have hnot : ¬ IsWellKnownName (if single then 1 else 2) (byte ':' :: rest) := by
      cases single with
      | true => exact not_isWellKnownName_colon 0 rest
      | false => exact not_isWellKnownName_colon 1 rest
    have hunique : IsUniqueName (if single then 1 else 2) (byte ':' :: rest) ↔
        Dotted nameExtra true (if single then 1 else 2) rest := by
      refine ⟨fun h => ?_, fun h => ⟨rest, rfl, h⟩⟩
      obtain ⟨tail, htail, h⟩ := h
      rw [(List.cons.inj htail).2]
      exact h
    rw [dbusValidateNameCommon_colon, Bool.and_eq_true, decide_eq_true_eq, validateElements_any_iff hdot hdigits,
      or_iff_left hnot, hunique]
  · have hnot : ¬ IsUniqueName (if single then 1 else 2) s := by
      intro h
      obtain ⟨rest, hs, _⟩ := h
      exact hhead (congrArg List.head? hs)
    rw [dbusValidateNameCommon_of_head?_ne hhead, Bool.and_eq_true, decide_eq_true_eq,
      validateElements_any_iff hdot hdigits, or_iff_right hnot, IsWellKnownName]

/-- The names that `dbus_validate_interface` accepts. -/
theorem dbusValidateInterface_iff (s : Bytes) :
    dbusValidateInterface s = true ↔ s.length ≤ 255 ∧ Dotted memberExtra false 2 s := by
  obtain ⟨hdot, hdigits⟩ := memberExtra_spares
  have hany : dbusValidateInterface s = (decide (s.length ≤ 255) &&
      (validateElements memberExtra false s false true).any fun flags => (flags.1 || false) && !flags.2) := by
    rw [dbusValidateInterface]
    by_cases hlength : 255 < s.length
    · rw [if_pos hlength, decide_eq_false (Nat.not_le.mpr hlength), Bool.false_and]
    · rw [if_neg hlength, decide_eq_true (Nat.not_lt.mp hlength), Bool.true_and,
        show (fun c => decide (c = byte '_')) = memberExtra from rfl]
      cases validateElements memberExtra false s false true with
      | none => rfl
      | some flags => exact congrArg (· && !flags.2) (Bool.or_false flags.1).symm
  rw [hany, Bool.and_eq_true, decide_eq_true_eq, validateElements_any_iff hdot hdigits, if_neg Bool.false_ne_true]

/-- The loop of `dbus_validate_member` takes bytes of an element behind its first one. -/
theorem validateMember_eq_some_iff (s : Bytes) (first : Bool) :
    validateMember s false = some first ↔ first = false ∧ ∀ c ∈ s, isElementByte memberExtra c = true := by
  induction s with
  | nil =>
    rw [validateMember]
    exact ⟨fun h => ⟨(Option.some.inj h).symm, fun c hc => absurd hc List.not_mem_nil⟩, fun h => congrArg some h.1.symm⟩
  | cons c rest ih =>
    have hcondition : (isLetter c || isDigit c && !false || decide (c = byte '_')) = isElementByte memberExtra c := by
      rw [Bool.not_false, Bool.and_true]
      rfl
    rw [validateMember, List.forall_mem_cons, hcondition]
    by_cases hc : isElementByte memberExtra c = true
    · rw [if_pos hc, ih]
      exact ⟨fun h => ⟨h.1, hc, h.2⟩, fun h => ⟨h.1, h.2.2⟩⟩
    · rw [if_neg hc]
      exact ⟨fun h => absurd h (Option.some_ne_none first).symm, fun h => absurd h.2.1 hc⟩

/-- The names that `dbus_validate_member` accepts. -/
theorem dbusValidateMember_iff (s : Bytes) :
    dbusValidateMember s = true ↔ s.length ≤ 255 ∧ IsElement memberExtra false s := by
  rw [dbusValidateMember]
  by_cases hlength : 255 < s.length
  · rw [if_pos hlength]
    exact ⟨fun h => absurd h Bool.false_ne_true, fun h => absurd h.1 (Nat.not_le.mpr hlength)⟩
  · rw [if_neg hlength, and_iff_right (Nat.not_lt.mp hlength)]
    cases s with
    | nil => exact ⟨fun h => absurd h Bool.false_ne_true, fun h => absurd rfl h.nonempty⟩
    | cons c rest =>
      have hfirst : (isLetter c || isDigit c && !true || decide (c = byte '_')) = true ↔
          isElementByte memberExtra c = true ∧ isDigit c = false := by
        rw [Bool.not_true, Bool.and_false, Bool.or_false, isElementByte]
        cases hdigit : isDigit c with
        | true =>
          rw [isLetter_eq_false_of_isDigit hdigit]
          have hextra : decide (c = byte '_') = false := memberExtra_spares.2 c hdigit
          rw [hextra]
          exact ⟨fun h => absurd h Bool.false_ne_true, fun h => h.2.symm⟩
        | false =>
          rw [Bool.or_false, and_iff_left rfl]
          rfl
      rw [validateMember]
      by_cases hc : (isLetter c || isDigit c && !true || decide (c = byte '_')) = true
      · obtain ⟨hbyte, hdigit⟩ := hfirst.mp hc
        rw [if_pos hc]
        constructor
        · intro h
          cases hloop : validateMember rest false with
          | none =>
            rw [hloop] at h
            cases h
          | some first =>
            have hrest := ((validateMember_eq_some_iff rest first).mp hloop).2
            refine ⟨List.cons_ne_nil c rest, List.forall_mem_cons.mpr ⟨hbyte, hrest⟩, fun _ d tail heq => ?_⟩
            rw [← (List.cons.inj heq).1]
            exact hdigit
        · intro h
          have hloop := (validateMember_eq_some_iff rest false).mpr
            ⟨rfl, fun d hd => h.bytes d (List.mem_cons_of_mem c hd)⟩
          rw [hloop]
          rfl
      · rw [if_neg hc]
        refine ⟨fun h => absurd h Bool.false_ne_true, fun h => absurd (hfirst.mpr ⟨?_, ?_⟩) hc⟩
        · exact h.bytes c List.mem_cons_self
        · exact h.first rfl c rest rfl

/-- The validators accept the names of their grammars and nothing else. -/
theorem dbusValidators_grammar (s : Bytes) :
    (dbusValidateName s = true ↔ s.length ≤ 255 ∧ (IsUniqueName 2 s ∨ IsWellKnownName 2 s)) ∧
      (dbusValidateNamespace s = true ↔ s.length ≤ 255 ∧ (IsUniqueName 1 s ∨ IsWellKnownName 1 s)) ∧
      (dbusValidateInterface s = true ↔ s.length ≤ 255 ∧ Dotted memberExtra false 2 s) ∧
      (dbusValidateMember s = true ↔ s.length ≤ 255 ∧ IsElement memberExtra false s) :=
  ⟨dbusValidateNameCommon_iff s false, dbusValidateNameCommon_iff s true, dbusValidateInterface_iff s,
    dbusValidateMember_iff s⟩

end Validators

end DbusBroker
