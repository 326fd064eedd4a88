import DbusBroker.Dbus.Dvar
import DbusBroker.Dbus.Address

/-!
# Unique names

A valid bus name has no zero byte, and the name of an id is a valid bus name and a string of at
most 23 bytes.
-/

namespace DbusBroker

/-- Digits are the characters of a decimal number. -/
theorem isDigit_byte {c : Char} (h : c.isDigit = true) : isDigit (byte c) = true := by
  rw [Char.isDigit, Bool.and_eq_true] at h
  have hrange : 48 ≤ c.toNat ∧ c.toNat ≤ 57 :=
    ⟨UInt32.le_iff_toNat_le.mp (of_decide_eq_true h.1), UInt32.le_iff_toNat_le.mp (of_decide_eq_true h.2)⟩
  have hbyte : (byte c).toNat = c.toNat := UInt8.toNat_ofNat'.trans (Nat.mod_eq_of_lt (by omega))
  have hlow : byte '0' ≤ byte c := UInt8.le_iff_toNat_le.mpr (by rw [hbyte]; exact hrange.1)
  have hhigh : byte c ≤ byte '9' := UInt8.le_iff_toNat_le.mpr (by rw [hbyte]; exact hrange.2)
  rw [isDigit, decide_eq_true hlow, decide_eq_true hhigh]
  rfl

theorem isDigit_of_mem_lit_toString {id : ℕ} {c : UInt8} (h : c ∈ lit (toString id)) : isDigit c = true := by
  obtain ⟨ch, hch, rfl⟩ := List.mem_map.mp h
  have hdigits : ch ∈ Nat.toDigits 10 id := by
    rw [← Nat.toList_repr]
    exact hch
  exact isDigit_byte (Nat.isDigit_of_mem_toDigits (by decide) (by decide) hdigits)

theorem lit_toString_ne_nil (id : ℕ) : lit (toString id) ≠ [] := by
  intro h
  have hnil : Nat.toDigits 10 id = [] := by
    rw [← Nat.toList_repr]
    exact List.map_eq_nil_iff.mp h
  exact Nat.toDigits_ne_nil hnil

theorem length_lit_toString_le {id : ℕ} (h : id < 2 ^ 64) : (lit (toString id)).length ≤ 20 := by
  have hlen : (lit (toString id)).length = (Nat.toDigits 10 id).length := by
    rw [← Nat.toList_repr]
    exact List.length_map _
  rw [hlen, Nat.length_toDigits_le_iff (by decide) (by decide)]
  omega

/-- The name of an id fits into the buffer that is made for it. -/
theorem length_addressIdToString_le {id : ℕ} (h : id < 2 ^ 64) : (addressIdToString id).length ≤ 23 := by
  have hlen := length_lit_toString_le h
  have hhead : (lit ":1.").length = 3 := by decide
  rw [addressIdToString, List.length_append, hhead]
  omega

/-- Digits are a complete element. -/
theorem validateElements_digits {extra : UInt8 → Bool} {ds : Bytes} (h : ∀ c ∈ ds, isDigit c = true) (hasDot dot : Bool) :
    validateElements extra true ds hasDot dot = some (hasDot, dot && ds.isEmpty) := by
  induction ds generalizing dot with
  | nil => rw [validateElements, List.isEmpty_nil, Bool.and_true]
  | cons c ds ih =>
    have hdigit := h c List.mem_cons_self
    have hdot : c ≠ byte '.' := by
      rintro rfl
      exact absurd hdigit (by decide)
    rw [validateElements, if_neg hdot, if_pos (by simp [hdigit]), ih fun x hx => h x (List.mem_cons_of_mem c hx)]
    simp

/-- The name of an id is a valid bus name. -/
theorem dbusValidateName_addressIdToString {id : ℕ} (h : id < 2 ^ 64) : dbusValidateName (addressIdToString id) = true := by
  have hlen : ¬ 255 < (addressIdToString id).length := by
    have hle := length_addressIdToString_le h
    omega
  have hempty : (lit (toString id)).isEmpty = false := List.isEmpty_eq_false_iff.mpr (lit_toString_ne_nil id)
  have helements : validateElements (fun c => c = byte '_' || c = byte '-') true (byte '1' :: byte '.' :: lit (toString id))
      false true = some (true, false) := by
    rw [validateElements, if_neg (by decide), if_pos (by decide), validateElements, if_pos rfl,
      if_neg (by decide), validateElements_digits fun c => isDigit_of_mem_lit_toString, hempty]
    rfl
  have hname : addressIdToString id = byte ':' :: byte '1' :: byte '.' :: lit (toString id) := rfl
  rw [dbusValidateName, dbusValidateNameCommon.eq_def, if_neg hlen, hname]
  simp only [if_true, helements]
  rfl

/-- What elements are made of is not zero. -/
theorem zero_notMem_of_validateElements {extra : UInt8 → Bool} {digitFirst : Bool} (hextra : extra 0 = false)
    {name : Bytes} {hasDot dot : Bool} {r : Bool × Bool} (h : validateElements extra digitFirst name hasDot dot = some r) :
    0 ∉ name := by
  induction name generalizing hasDot dot with
  | nil => exact List.not_mem_nil
  | cons c rest ih =>
    rw [validateElements] at h
    have hrest : 0 ∉ rest := by
      split at h
      · split at h
        · cases h
        · exact ih h
      · split at h
        · exact ih h
        · cases h
    have hc : c ≠ 0 := by
      rintro rfl
      rw [if_neg (by decide), if_neg (by simp [hextra, isLetter, isDigit, byte])] at h
      cases h
    simp [hrest, Ne.symm hc]

/-- A bus name has 255 bytes at most. -/
theorem length_le_of_dbusValidateName {name : Bytes} (h : dbusValidateName name = true) : name.length ≤ 255 := by
  by_contra hlong
  rw [dbusValidateName, dbusValidateNameCommon.eq_def, if_pos (Nat.lt_of_not_le hlong)] at h
  cases h

/-- A bus name is a C string. -/
theorem zero_notMem_of_dbusValidateName {name : Bytes} (h : dbusValidateName name = true) : 0 ∉ name := by
  rw [dbusValidateName, dbusValidateNameCommon.eq_def] at h
  split at h
  · cases h
  · cases name with
    | nil => exact List.not_mem_nil
    | cons c rest =>
      by_cases hc : c = byte ':'
      · subst hc
        simp only [if_true] at h
        split at h
        · next hr => simpa [byte] using zero_notMem_of_validateElements (by decide) hr
        · cases h
      · simp only [if_neg hc] at h
        split at h
        · next hr => exact zero_notMem_of_validateElements (by decide) hr
        · cases h

/-- ASCII characters are UTF-8. -/
theorem cDvarIsString_of_ascii {str : Bytes} (h : ∀ c ∈ str, c ≠ 0 ∧ c ≤ 0x7f) : cDvarIsString str = true := by
  have hfuel : cUtf8VerifyFuel str.length str = [] := by
    induction str with
    | nil => rfl
    | cons c rest ih =>
      have hc := h c List.mem_cons_self
      have hchar : cUtf8Char (c :: rest) = 1 := by
        rw [cUtf8Char]
        simp only [if_neg hc.1, if_pos hc.2]
      rw [List.length_cons, cUtf8VerifyFuel, hchar, if_neg (by decide), List.drop_one, List.tail_cons]
      exact ih fun x hx => h x (List.mem_cons_of_mem c hx)
  rw [cDvarIsString, cUtf8Verify, hfuel]
  rfl

theorem cDvarIsString_addressIdToString (id : ℕ) : cDvarIsString (addressIdToString id) = true := by
  refine cDvarIsString_of_ascii fun c hc => ?_
  rcases List.mem_append.mp hc with hc | hc
  · have hhead : ∀ c ∈ lit ":1.", c ≠ 0 ∧ c ≤ 0x7f := by decide +kernel
    exact hhead c hc
  · have hdigit := isDigit_of_mem_lit_toString hc
    obtain ⟨hlow, hhigh⟩ := (Bool.and_eq_true _ _).mp hdigit
    have hlow' := UInt8.le_iff_toNat_le.mp (of_decide_eq_true hlow)
    have hhigh' := UInt8.le_iff_toNat_le.mp (of_decide_eq_true hhigh)
    have h0 : (byte '0').toNat = 48 := by decide
    have h9 : (byte '9').toNat = 57 := by decide
    refine ⟨fun hzero => ?_, UInt8.le_iff_toNat_le.mpr ?_⟩
    · rw [hzero, h0] at hlow'
      exact absurd hlow' (by decide)
    · change c.toNat ≤ 127
      omega

end DbusBroker
