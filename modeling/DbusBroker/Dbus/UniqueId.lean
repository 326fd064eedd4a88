import DbusBroker.Dbus.UniqueName

/-!
# Unique names and ids

The name of an id is read back as the id. The other direction holds of the names that are
written the way the broker writes them: `strtoull` also takes a sign, and zeros in front of
a number, and both are allowed in a bus name.
-/

namespace DbusBroker

/-! ## Decimal numbers -/

/-- Digits, one of them at least. -/
structure IsDecimal (ds : Bytes) : Prop where
  ne_nil : ds ≠ []
  digit : ∀ c ∈ ds, isDigit c = true

section Decimal

variable {ds : Bytes} {c : UInt8} {n : ℕ}

/-- The value of a digit. -/
theorem toNat_digit (h : isDigit c = true) : (c - byte '0').toNat = c.toNat - 48 ∧ 48 ≤ c.toNat ∧ c.toNat ≤ 57 := by
  rw [isDigit, Bool.and_eq_true, decide_eq_true_eq, decide_eq_true_eq] at h
  have hlow : 48 ≤ c.toNat := UInt8.le_iff_toNat_le.mp h.1
  have hhigh : c.toNat ≤ 57 := UInt8.le_iff_toNat_le.mp h.2
  exact ⟨UInt8.toNat_sub_of_le _ _ h.1, hlow, hhigh⟩

/-- A digit is printed as itself. -/
theorem byte_digitChar (h : isDigit c = true) : byte (Nat.digitChar (c - byte '0').toNat) = c := by
  obtain ⟨hvalue, hlow, hhigh⟩ := toNat_digit h
  have hchar : (Nat.digitChar (c - byte '0').toNat).toNat = c.toNat := by
    rw [hvalue, Nat.toNat_digitChar_of_lt_ten (by omega)]
    omega
  rw [byte, hchar]
  exact UInt8.ofNat_toNat

/-- A number is printed as its digits. -/
theorem lit_toString_eq (n : ℕ) : lit (toString n) = (Nat.toDigits 10 n).map byte := by
  rw [← Nat.toList_repr]
  rfl

/-- Digits behind a number that is not zero are printed behind it. -/
theorem lit_toString_append (hn : 0 < n) (h : ∀ c ∈ ds, isDigit c = true) :
    lit (toString n) ++ ds = lit (toString (decimalFrom ds n)) := by
  induction ds generalizing n with
  | nil => exact List.append_nil _
  | cons c ds ih =>
    have hc := h c List.mem_cons_self
    obtain ⟨hvalue, hlow, hhigh⟩ := toNat_digit hc
    have hdigit : (c - byte '0').toNat < 10 := by omega
    have happend := Nat.toDigits_append_toDigits (b := 10) (by decide) hn hdigit
    rw [Nat.toDigits_of_lt_base hdigit] at happend
    have hnext : lit (toString n) ++ [c] = lit (toString (n * 10 + (c - byte '0').toNat)) := by
      rw [lit_toString_eq, lit_toString_eq, Nat.mul_comm n 10, ← happend, List.map_append, List.map_singleton,
        byte_digitChar hc]
    have hrest := ih (n := n * 10 + (c - byte '0').toNat) (by omega) fun d hd => h d (List.mem_cons_of_mem c hd)
    rw [← hnext, List.append_assoc, List.singleton_append] at hrest
    exact hrest

/-- Digits without a zero in front are what their value is printed as. -/
theorem lit_toString_decimal (h : IsDecimal ds) (hzero : ds.head? = some (byte '0') → ds = [byte '0']) :
    lit (toString (decimal ds)) = ds := by
  obtain ⟨c, ds, rfl⟩ := List.exists_cons_of_ne_nil h.ne_nil
  have hc := h.digit c List.mem_cons_self
  obtain ⟨hvalue, hlow, hhigh⟩ := toNat_digit hc
  by_cases hfirst : c = byte '0'
  · rw [hzero (by rw [hfirst]; rfl)]
    decide
  · have hpos : 0 < (c - byte '0').toNat := by
      have hne : c.toNat ≠ 48 := fun heq => hfirst (UInt8.toNat_inj.mp heq)
      omega
    have hone : lit (toString (c - byte '0').toNat) = [c] := by
      rw [lit_toString_eq, Nat.toDigits_of_lt_base (by omega), List.map_singleton, byte_digitChar hc]
    have happend := lit_toString_append hpos fun d hd => h.digit d (List.mem_cons_of_mem c hd)
    rw [hone, List.singleton_append] at happend
    have hvalue' : decimal (c :: ds) = decimalFrom ds (c - byte '0').toNat := by
      rw [decimal, decimalFrom, List.foldl_cons, Nat.zero_mul, Nat.zero_add, decimalFrom]
    rw [hvalue', happend]

/-- A number is not printed with more digits than it is read from. -/
theorem length_lit_toString_decimal_le (h : IsDecimal ds) : (lit (toString (decimal ds))).length ≤ ds.length := by
  induction ds with
  | nil => exact absurd rfl h.ne_nil
  | cons c ds ih =>
    by_cases hzero : c = byte '0' ∧ ds ≠ []
    · obtain ⟨rfl, hne⟩ := hzero
      exact Nat.le_succ_of_le (ih ⟨hne, fun d hd => h.digit d (List.mem_cons_of_mem _ hd)⟩)
    · rw [lit_toString_decimal h]
      intro hfirst
      obtain rfl : c = byte '0' := Option.some.inj hfirst
      rw [not_and_not_right.mp hzero rfl]

/-- What a number is printed as are digits. -/
theorem isDecimal_lit_toString (n : ℕ) : IsDecimal (lit (toString n)) :=
  ⟨lit_toString_ne_nil n, fun _ => isDigit_of_mem_lit_toString⟩

/-- What a number is printed as has its value. -/
theorem decimal_lit_toString (n : ℕ) : decimal (lit (toString n)) = n := by
  have hchars (cs : List Char) (hcs : ∀ c ∈ cs, c.isDigit = true) (m : ℕ) :
      decimalFrom (cs.map byte) m = Nat.ofDigitChars 10 cs m := by
    induction cs generalizing m with
    | nil => rfl
    | cons c cs ih =>
      have hc := hcs c List.mem_cons_self
      obtain ⟨hvalue, hlow, hhigh⟩ := toNat_digit (isDigit_byte hc)
      have hbyte : (byte c).toNat = c.toNat := by
        rw [Char.isDigit, Bool.and_eq_true] at hc
        have hsmall : c.toNat ≤ 57 := UInt32.le_iff_toNat_le.mp (of_decide_eq_true hc.2)
        exact UInt8.toNat_ofNat'.trans (Nat.mod_eq_of_lt (by omega))
      rw [Nat.ofDigitChars_cons, List.map_cons, decimalFrom, List.foldl_cons, hvalue, hbyte, Nat.mul_comm m 10]
      exact ih (fun d hd => hcs d (List.mem_cons_of_mem c hd)) _
  rw [lit_toString_eq, decimal, hchars _ fun c hc => Nat.isDigit_of_mem_toDigits (by decide) (by decide) hc]
  exact Nat.ofDigitChars_ten_toDigits

end Decimal

/-! ## Reading an id -/

section Read

variable {s ds t : Bytes} {n : ℕ}

/-- Digits are read up to the first byte that is none. -/
theorem readDigits_append (h : ∀ c ∈ ds, isDigit c = true) (ht : t.head?.any isDigit = false) (n : ℕ) :
    readDigits (ds ++ t) n = (decimalFrom ds n, t) := by
  induction ds generalizing n with
  | nil =>
    cases t with
    | nil => rfl
    | cons c t => exact if_neg (ne_true_of_eq_false ht)
  | cons c ds ih =>
    rw [List.cons_append, readDigits, if_pos (h c List.mem_cons_self)]
    exact ih (fun d hd => h d (List.mem_cons_of_mem c hd)) _

/-- What is read are digits, and what is left follows them. -/
theorem exists_of_readDigits (s : Bytes) (n : ℕ) :
    ∃ ds, s = ds ++ (readDigits s n).2 ∧ (∀ c ∈ ds, isDigit c = true) ∧ (readDigits s n).1 = decimalFrom ds n := by
  induction s generalizing n with
  | nil => exact ⟨[], rfl, by simp, rfl⟩
  | cons c s ih =>
    rw [readDigits]
    split
    · next hc =>
      obtain ⟨ds, hs, hdigits, hvalue⟩ := ih (n * 10 + (c - byte '0').toNat)
      exact ⟨c :: ds, congrArg (c :: ·) hs, List.forall_mem_cons.mpr ⟨hc, hdigits⟩, hvalue⟩
    · exact ⟨[], rfl, by simp, rfl⟩

/-- The first byte of what `strtoull` reads is neither white space nor a plus sign. -/
def PlainHead (t : Bytes) : Prop := ∀ c, t.head? = some c → isSpace c = false ∧ c ≠ byte '+'

/-- A number that `strtoull` reads, with its sign. -/
inductive Numeral : Bytes → Bool → Bytes → Prop
  | positive {ds : Bytes} (h : IsDecimal ds) : Numeral ds false ds
  | negative {ds : Bytes} (h : IsDecimal ds) : Numeral (byte '-' :: ds) true ds

/-- The value of a number that `strtoull` reads; a negative one wraps around. -/
def numeralValue (negative : Bool) (n : ℕ) : ℕ := if negative then (2 ^ 64 - n) % 2 ^ 64 else n

/-- The result of `strtoull` behind the sign. -/
theorem strtoull_signed (ht : PlainHead t) (negative : Bool) (digits : Bytes)
    (hsign : t = byte '-' :: digits ∧ negative = true ∨ t = digits ∧ negative = false ∧ t.head? ≠ some (byte '-')) :
    strtoull t =
      if (readDigits digits 0).2.length = digits.length then ⟨0, t, false⟩
      else if 2 ^ 64 ≤ (readDigits digits 0).1 then ⟨2 ^ 64 - 1, (readDigits digits 0).2, true⟩
      else ⟨numeralValue negative (readDigits digits 0).1, (readDigits digits 0).2, false⟩ := by
  have htrim : t.dropWhile isSpace = t := by
    cases t with
    | nil => rfl
    | cons c t => exact List.dropWhile_cons_of_neg (ne_true_of_eq_false (ht c rfl).1)
  rw [strtoull, htrim]
  obtain ⟨rfl, rfl⟩ | ⟨rfl, rfl, hminus⟩ := hsign
  · rfl
  · cases t with
    | nil => rfl
    | cons c t =>
      have hc : c ≠ byte '-' := fun heq => hminus (congrArg some heq)
      dsimp only
      rw [if_neg hc, if_neg (ht c rfl).2]
      rfl

/-- Numbers are decimal digits behind an optional sign. -/
theorem numeral_iff {negative : Bool} {digits : Bytes}
    (hsign : t = byte '-' :: digits ∧ negative = true ∨ t = digits ∧ negative = false ∧ t.head? ≠ some (byte '-'))
    (negative' : Bool) (ds : Bytes) : Numeral t negative' ds ↔ negative' = negative ∧ ds = digits ∧ IsDecimal digits := by
  have hdigit : isDigit (byte '-') = false := by decide
  obtain ⟨rfl, rfl⟩ | ⟨rfl, rfl, hminus⟩ := hsign
  · constructor
    · intro h
      cases h with
      | positive h => exact absurd (h.digit _ List.mem_cons_self) (ne_true_of_eq_false hdigit)
      | negative h => exact ⟨rfl, rfl, h⟩
    · intro h
      obtain ⟨rfl, rfl, h⟩ := h
      exact .negative h
  · constructor
    · intro h
      cases h with
      | positive h => exact ⟨rfl, rfl, h⟩
      | negative h => exact absurd rfl hminus
    · intro h
      obtain ⟨rfl, rfl, h⟩ := h
      exact .positive h

/-- A string is an id exactly if it is a number that is in range and not the invalid id. -/
theorem addressFromString_id_iff (ht : PlainHead t) (n : ℕ) :
    addressFromString (lit ":1." ++ t) = .id n ↔
      ∃ negative ds, Numeral t negative ds ∧ decimal ds < 2 ^ 64 ∧ n = numeralValue negative (decimal ds) ∧
        n ≠ 2 ^ 64 - 1 := by
  have hcut : stringPrefix (lit ":1." ++ t) (lit ":1.") = some t := (stringPrefix_eq_some_iff _ _ _).mpr rfl
  have hread : addressFromString (lit ":1." ++ t) =
      if (strtoull t).rest.length = t.length || !(strtoull t).rest.isEmpty || (strtoull t).range ||
        (strtoull t).value == 2 ^ 64 - 1 then .other else .id (strtoull t).value := by
    rw [addressFromString.eq_def]
    exact (if_pos rfl).trans (by rw [hcut])
  obtain ⟨negative, digits, hsign⟩ : ∃ negative digits, t = byte '-' :: digits ∧ negative = true ∨
      t = digits ∧ negative = false ∧ t.head? ≠ some (byte '-') := by
    by_cases hminus : t.head? = some (byte '-')
    · obtain ⟨digits, rfl⟩ := List.head?_eq_some_iff.mp hminus
      exact ⟨true, digits, .inl ⟨rfl, rfl⟩⟩
    · exact ⟨false, t, .inr ⟨rfl, rfl, hminus⟩⟩
  have hnumber : (∃ negative' ds, Numeral t negative' ds ∧ decimal ds < 2 ^ 64 ∧ n = numeralValue negative' (decimal ds) ∧
      n ≠ 2 ^ 64 - 1) ↔ IsDecimal digits ∧ decimal digits < 2 ^ 64 ∧ n = numeralValue negative (decimal digits) ∧
        n ≠ 2 ^ 64 - 1 := by
    simp only [numeral_iff hsign]
    constructor
    · intro h
      obtain ⟨_, _, ⟨rfl, rfl, hdecimal⟩, hrest⟩ := h
      exact ⟨hdecimal, hrest⟩
    · exact fun h => ⟨negative, digits, ⟨rfl, rfl, h.1⟩, h.2⟩
  have hresult := strtoull_signed ht negative digits hsign
  obtain ⟨ds, hdigits, hall, hvalue⟩ := exists_of_readDigits digits 0
  have hrest (h : IsDecimal digits) : (readDigits digits 0).2 = [] := by
    have hread := readDigits_append h.digit (t := []) rfl 0
    rw [List.append_nil] at hread
    rw [hread]
  rw [hread, hnumber]
  by_cases hnone : (readDigits digits 0).2.length = digits.length
  · -- no digits were read, so the end is where the string started
    rw [if_pos hnone] at hresult
    rw [hresult, if_pos (by simp)]
    refine iff_of_false (by simp) fun h => h.1.ne_nil ?_
    rw [hrest h.1] at hnone
    exact List.eq_nil_of_length_eq_zero hnone.symm
  rw [if_neg hnone] at hresult
  by_cases hend : (readDigits digits 0).2 = []
  · rw [hend, List.append_nil] at hdigits
    rw [← hdigits] at hall hvalue
    have hne : digits ≠ [] := fun hnil => hnone (by rw [hend, hnil])
    have hlength : ([] : Bytes).length ≠ t.length := by
      obtain ⟨rfl, -⟩ | ⟨rfl, -⟩ := hsign
      · simp
      · exact fun heq => hne (List.eq_nil_of_length_eq_zero heq.symm)
    rw [hvalue, hend, ← decimal] at hresult
    by_cases hrange : 2 ^ 64 ≤ decimal digits
    · rw [if_pos hrange] at hresult
      rw [hresult, if_pos (by simp)]
      exact iff_of_false (by simp) fun h => absurd h.2.1 (Nat.not_lt.mpr hrange)
    · rw [if_neg hrange] at hresult
      rw [hresult]
      by_cases hinvalid : numeralValue negative (decimal digits) = 2 ^ 64 - 1
      · rw [if_pos (by simp [hinvalid])]
        exact iff_of_false (by simp) fun h => h.2.2.2 (h.2.2.1.trans hinvalid)
      · have hcheck : (decide (([] : Bytes).length = t.length) || !([] : Bytes).isEmpty || false ||
            numeralValue negative (decimal digits) == 2 ^ 64 - 1) = false := by
          rw [decide_eq_false hlength, beq_eq_false_iff_ne.mpr hinvalid]
          rfl
        rw [if_neg (ne_true_of_eq_false hcheck)]
        constructor
        · intro h
          cases h
          exact ⟨⟨hne, hall⟩, Nat.lt_of_not_le hrange, rfl, hinvalid⟩
        · exact fun h => congrArg Address.id h.2.2.1.symm
  · have hsome : (readDigits digits 0).2.isEmpty = false := List.isEmpty_eq_false_iff.mpr hend
    have hother : (!(strtoull t).rest.isEmpty) = true := by
      rw [hresult]
      split <;> simp [hsome]
    rw [if_pos (by rw [hother]; simp)]
    exact iff_of_false (by simp) fun h => hend (hrest h.1)

end Read

/-! ## Names and ids -/

section Names

variable {s t : Bytes} {n : ℕ}

/-- A byte of a bus name. -/
def isNameByte (c : UInt8) : Bool := isLetter c || isDigit c || c = byte '_' || c = byte '-' || c = byte '.'

/-- Elements are made of the bytes of names. -/
theorem isNameByte_of_validateElements {digitFirst hasDot dot : Bool} {name : Bytes} {r : Bool × Bool}
    (h : validateElements (fun c => c = byte '_' || c = byte '-') digitFirst name hasDot dot = some r) :
    ∀ c ∈ name, isNameByte c = true := by
  induction name generalizing hasDot dot with
  | nil => simp
  | cons c rest ih =>
    rw [validateElements] at h
    by_cases hdot : c = byte '.'
    · rw [if_pos hdot] at h
      split at h
      · cases h
      · exact List.forall_mem_cons.mpr ⟨by simp [isNameByte, hdot], ih h⟩
    · rw [if_neg hdot] at h
      split at h
      · next hc =>
        refine List.forall_mem_cons.mpr ⟨?_, ih h⟩
        simp only [isNameByte, Bool.or_eq_true, Bool.and_eq_true, decide_eq_true_eq] at hc ⊢
        obtain (hletter | hdigit) | hextra | hextra := hc
        · exact .inl (.inl (.inl (.inl hletter)))
        · exact .inl (.inl (.inl (.inr hdigit.1)))
        · exact .inl (.inl (.inr hextra))
        · exact .inl (.inr hextra)
      · cases h

/-- What follows the namespace of ids in a bus name starts with neither white space nor a plus sign. -/
theorem plainHead_of_dbusValidateName (h : dbusValidateName (lit ":1." ++ t) = true) : PlainHead t := by
  have hbytes : ∀ c ∈ byte '1' :: byte '.' :: t, isNameByte c = true := by
    rw [dbusValidateName, dbusValidateNameCommon.eq_def] at h
    split at h
    · cases h
    · dsimp only at h
      cases hr : validateElements (fun c => c = byte '_' || c = byte '-') true (byte '1' :: byte '.' :: t) false true with
      | none =>
        have hfalse : (lit ":1." ++ t) = byte ':' :: byte '1' :: byte '.' :: t := rfl
        rw [hfalse] at h
        simp only [if_true, hr] at h
        cases h
      | some r => exact isNameByte_of_validateElements hr
  intro c hc
  cases t with
  | nil => cases hc
  | cons d t =>
    obtain rfl : d = c := Option.some.inj hc
    have hd := hbytes d (by simp)
    constructor
    · cases hspace : isSpace d with
      | false => rfl
      | true =>
        have hdisjoint : ∀ n : Fin 256, ¬(isSpace (UInt8.ofNat n) = true ∧ isNameByte (UInt8.ofNat n) = true) := by
          decide +kernel
        have hself := hdisjoint ⟨d.toNat, d.toNat_lt⟩
        rw [UInt8.ofNat_toNat] at hself
        exact absurd ⟨hspace, hd⟩ hself
    · intro heq
      rw [heq] at hd
      exact absurd hd (by decide)

/-- Another way to write an id: with a minus sign, or with a zero in front of the number. -/
inductive OddNumeral : Bytes → Prop
  | minus {ds : Bytes} (h : IsDecimal ds) (hrange : decimal ds < 2 ^ 64) (hinvalid : decimal ds ≠ 1) :
      OddNumeral (byte '-' :: ds)
  | zero {ds : Bytes} (h : IsDecimal ds) (hrange : decimal ds < 2 ^ 64 - 1) : OddNumeral (byte '0' :: ds)

/-- A number stands for an id and is not how the id is written. -/
theorem oddNumeral_iff :
    OddNumeral t ↔ ∃ negative ds, Numeral t negative ds ∧ decimal ds < 2 ^ 64 ∧
      numeralValue negative (decimal ds) ≠ 2 ^ 64 - 1 ∧ t ≠ lit (toString (numeralValue negative (decimal ds))) := by
  have hcons (ds : Bytes) : decimal (byte '0' :: ds) = decimal ds := rfl
  constructor
  · intro h
    cases h with
    | @minus ds h hrange hinvalid =>
      refine ⟨true, ds, .negative h, hrange, ?_, fun heq => ?_⟩
      · show (2 ^ 64 - decimal ds) % 2 ^ 64 ≠ 2 ^ 64 - 1
        omega
      · have hmem : byte '-' ∈ lit (toString (numeralValue true (decimal ds))) := heq ▸ List.mem_cons_self
        exact absurd (isDigit_of_mem_lit_toString hmem) (by decide)
    | @zero ds h hrange =>
      have hdecimal : IsDecimal (byte '0' :: ds) := ⟨List.cons_ne_nil _ _, List.forall_mem_cons.mpr ⟨by decide, h.digit⟩⟩
      refine ⟨false, byte '0' :: ds, .positive hdecimal, by rw [hcons]; omega, ?_, fun heq => ?_⟩
      · show decimal (byte '0' :: ds) ≠ 2 ^ 64 - 1
        rw [hcons]
        omega
      · have hshort := length_lit_toString_decimal_le h
        have hlong := congrArg List.length heq
        rw [List.length_cons, numeralValue, if_neg Bool.false_ne_true, hcons] at hlong
        omega
  · intro h
    obtain ⟨negative, ds, hnumeral, hrange, hinvalid, hne⟩ := h
    cases hnumeral with
    | negative h =>
      refine .minus h hrange fun hone => hinvalid ?_
      rw [hone]
      decide
    | positive h =>
      by_cases hzero : t.head? = some (byte '0')
      · obtain ⟨es, rfl⟩ := List.head?_eq_some_iff.mp hzero
        have hnil : es ≠ [] := by
          intro hnil
          rw [hnil] at hne
          exact hne (by decide)
        refine .zero ⟨hnil, fun c hc => h.digit c (List.mem_cons_of_mem _ hc)⟩ ?_
        have hvalue : decimal es ≠ 2 ^ 64 - 1 := hinvalid
        rw [hcons] at hrange
        omega
      · exact absurd (lit_toString_decimal h fun hfirst => absurd hfirst hzero).symm hne

/-- The string of an id stands in the namespace of ids. -/
theorem exists_of_addressFromString_id (h : addressFromString s = .id n) : ∃ t, s = lit ":1." ++ t := by
  rw [addressFromString.eq_def] at h
  cases s with
  | nil => cases h
  | cons c rest =>
    dsimp only at h
    split_ifs at h
    cases htail : stringPrefix (c :: rest) (lit ":1.") with
    | none =>
      rw [htail] at h
      cases h
    | some t => exact ⟨t, (stringPrefix_eq_some_iff _ _ _).mp htail⟩

/-- The name of an id is read back as the id. -/
theorem addressFromString_addressIdToString {id : ℕ} (hrange : id < 2 ^ 64) (hinvalid : id ≠ 2 ^ 64 - 1) :
    addressFromString (addressIdToString id) = .id id := by
  have hplain := plainHead_of_dbusValidateName (dbusValidateName_addressIdToString hrange)
  refine (addressFromString_id_iff hplain id).mpr ⟨false, _, .positive (isDecimal_lit_toString id), ?_, ?_, hinvalid⟩
  · rwa [decimal_lit_toString]
  · rw [decimal_lit_toString]
    rfl

/-- A bus name that is read as an id is its name exactly if it is not another way to write it. -/
theorem eq_addressIdToString_iff {s : Bytes} (hvalid : dbusValidateName s = true) :
    (∀ n, addressFromString s = .id n → s = addressIdToString n) ↔ ¬∃ t, s = lit ":1." ++ t ∧ OddNumeral t := by
  constructor
  · intro hname hodd
    obtain ⟨t, rfl, hodd⟩ := hodd
    obtain ⟨negative, ds, hnumeral, hrange, hinvalid, hne⟩ := oddNumeral_iff.mp hodd
    have hid := (addressFromString_id_iff (plainHead_of_dbusValidateName hvalid) _).mpr
      ⟨negative, ds, hnumeral, hrange, rfl, hinvalid⟩
    exact hne (List.append_cancel_left (hname _ hid))
  · intro hodd n hid
    obtain ⟨t, rfl⟩ := exists_of_addressFromString_id hid
    obtain ⟨negative, ds, hnumeral, hrange, hvalue, hinvalid⟩ :=
      (addressFromString_id_iff (plainHead_of_dbusValidateName hvalid) n).mp hid
    rw [hvalue] at hinvalid ⊢
    by_contra hne
    exact hodd ⟨t, rfl, oddNumeral_iff.mpr ⟨negative, ds, hnumeral, hrange, hinvalid, fun heq => hne (congrArg _ heq)⟩⟩

/-- Ids and the names of a bus are in bijection as far as the names are the usual way to write the ids. -/
theorem addressIdToString_bijection {s : Bytes} (hvalid : dbusValidateName s = true) :
    ((∀ id, id < 2 ^ 64 → id ≠ 2 ^ 64 - 1 → addressFromString (addressIdToString id) = .id id) ∧
        ∀ n, addressFromString s = .id n → s = addressIdToString n) ↔
      ¬∃ t, s = lit ":1." ++ t ∧ OddNumeral t :=
  (and_iff_right fun _ hrange hinvalid => addressFromString_addressIdToString hrange hinvalid).trans
    (eq_addressIdToString_iff hvalid)

/-- The usual name of a peer. -/
theorem addressIdToString_bijection_five : dbusValidateName (lit ":1.5") = true ∧
    (((∀ id, id < 2 ^ 64 → id ≠ 2 ^ 64 - 1 → addressFromString (addressIdToString id) = .id id) ∧
        ∀ n, addressFromString (lit ":1.5") = .id n → lit ":1.5" = addressIdToString n) ↔
      ¬∃ t, lit ":1.5" = lit ":1." ++ t ∧ OddNumeral t) :=
  ⟨rfl, addressIdToString_bijection rfl⟩

/-- Three bus names of one peer. -/
theorem addressFromString_not_injective :
    dbusValidateName (lit ":1.05") = true ∧ dbusValidateName (lit ":1.-18446744073709551611") = true ∧
      addressFromString (lit ":1.5") = .id 5 ∧ addressFromString (lit ":1.05") = .id 5 ∧
      addressFromString (lit ":1.-18446744073709551611") = .id 5 ∧ lit ":1.05" ≠ addressIdToString 5 :=
  ⟨rfl, rfl, rfl, rfl, rfl, by decide⟩

end Names

end DbusBroker
