import DbusBroker.Dbus.Protocol
import DbusBroker.Launch.Service

/-!
# Names of transient units

What `systemd_escape_unit` makes of a string can be read back: a dash is a slash, a backslash in
front of an `x` and two hexadecimal digits is the byte of these digits, and anything else is itself.
So two names of services never make the same transient unit.
-/

namespace DbusBroker

/-! ## Reading an escaped string -/

/-- The value of a hexadecimal digit. -/
def hexValue (c : UInt8) : Option UInt8 :=
  if isDigit c then some (c - byte '0')
  else if byte 'a' ≤ c ∧ c ≤ byte 'f' then some (c - byte 'a' + 10)
  else if byte 'A' ≤ c ∧ c ≤ byte 'F' then some (c - byte 'A' + 10)
  else none

/-- The byte that an `x` and two hexadecimal digits stand for, if a string starts with them. -/
def unitEscape : Bytes → Option UInt8
  | x :: high :: low :: _ =>
    if x = byte 'x' then (hexValue high).bind fun high => (hexValue low).map fun low => high * 16 + low else none
  | _ => none

/-- What an escaped string stands for, behind some bytes that were read already. -/
def unitDecodeFrom : ℕ → Bytes → Bytes
  | _, [] => []
  | skip + 1, _ :: rest => unitDecodeFrom skip rest
  | 0, c :: rest =>
    if c = byte '-' then byte '/' :: unitDecodeFrom 0 rest
    else if c = byte '\\' then
      match unitEscape rest with
      | some value => value :: unitDecodeFrom 3 rest
      | none => c :: unitDecodeFrom 0 rest
    else c :: unitDecodeFrom 0 rest

/-- What an escaped string stands for. -/
def unitDecode (s : Bytes) : Bytes := unitDecodeFrom 0 s

/-- The characters of an escaped string. -/
def isUnitCharacter (c : UInt8) : Bool :=
  isLetter c || isDigit c || (lit ":_.-\\").contains c

/-- The digit of a number below sixteen has its value. -/
theorem hexValue_hexDigit {n : UInt8} (h : n < 16) : hexValue (hexDigit n) = some n ∧ isUnitCharacter (hexDigit n) = true := by
  have hall : ∀ m, m < 16 → hexValue (hexDigit (UInt8.ofNat m)) = some (UInt8.ofNat m) ∧
      isUnitCharacter (hexDigit (UInt8.ofNat m)) = true := by
    decide
  have hn := hall n.toNat (UInt8.lt_iff_toNat_lt.mp h)
  rwa [UInt8.ofNat_toNat] at hn

/-- The lower four bits of a byte. -/
theorem toNat_and_low (c : UInt8) : (c &&& 0x0f).toNat = c.toNat % 16 := by
  rw [UInt8.toNat_and]
  exact Nat.and_two_pow_sub_one_eq_mod c.toNat 4

/-- Four bits are below sixteen. -/
theorem and_lt_sixteen (c : UInt8) : c &&& 0x0f < 16 := by
  apply UInt8.lt_iff_toNat_lt.mpr
  rw [toNat_and_low]
  exact Nat.mod_lt c.toNat (by decide)

/-- The upper four bits of a byte. -/
theorem toNat_and_high (c : UInt8) : ((c >>> 4) &&& 0x0f).toNat = c.toNat / 16 := by
  have hc := UInt8.toNat_lt c
  have hshift : (c >>> 4).toNat = c.toNat / 16 := by
    rw [UInt8.toNat_shiftRight, Nat.shiftRight_eq_div_pow]
    rfl
  rw [toNat_and_low, hshift]
  exact Nat.mod_eq_of_lt (by omega)

/-- A byte is its upper and its lower four bits. -/
theorem high_mul_add_low (c : UInt8) : ((c >>> 4) &&& 0x0f) * 16 + (c &&& 0x0f) = c := by
  have hc := UInt8.toNat_lt c
  apply UInt8.toNat_inj.mp
  rw [UInt8.toNat_add, UInt8.toNat_mul, toNat_and_high, toNat_and_low]
  show (c.toNat / 16 * 16 % 256 + c.toNat % 16) % 256 = c.toNat
  omega

/-- The escape of a byte has the characters of an escaped string. -/
theorem isUnitCharacter_of_mem_escapeChar {c d : UInt8} (h : d ∈ escapeChar c) : isUnitCharacter d = true := by
  rw [escapeChar, List.mem_cons, List.mem_cons, List.mem_cons, List.mem_singleton] at h
  obtain rfl | rfl | rfl | rfl := h
  · rfl
  · rfl
  · exact (hexValue_hexDigit (and_lt_sixteen _)).2
  · exact (hexValue_hexDigit (and_lt_sixteen c)).2

/-- What the loop makes of a byte has the characters of an escaped string. -/
theorem isUnitCharacter_of_mem_escapeUnitByte {c d : UInt8} (h : d ∈ escapeUnitByte c) : isUnitCharacter d = true := by
  rw [escapeUnitByte] at h
  by_cases hslash : c = byte '/'
  · rw [if_pos hslash, List.mem_singleton] at h
    rw [h]
    rfl
  · rw [if_neg hslash] at h
    cases hneeds : needsEscape c with
    | true =>
      rw [hneeds, if_pos rfl] at h
      exact isUnitCharacter_of_mem_escapeChar h
    | false =>
      rw [hneeds, if_neg Bool.false_ne_true, List.mem_singleton] at h
      have hall : unitAlphabet.all isUnitCharacter = true := rfl
      rw [needsEscape, Bool.not_eq_false', List.contains_iff_mem] at hneeds
      rw [h]
      exact List.all_eq_true.mp hall c hneeds

/-- What the loop makes of a byte has four bytes at most. -/
theorem length_escapeUnitByte_le (c : UInt8) : (escapeUnitByte c).length ≤ 4 := by
  rw [escapeUnitByte]
  split
  · exact Nat.le_of_ble_eq_true rfl
  · split
    · exact Nat.le_refl 4
    · exact Nat.le_of_ble_eq_true rfl

/-- A byte that is not escaped is neither a dash nor a backslash. -/
theorem ne_of_not_needsEscape {c : UInt8} (h : needsEscape c = false) : c ≠ byte '-' ∧ c ≠ byte '\\' := by
  constructor
  · intro heq
    rw [heq] at h
    exact absurd h (by decide)
  · intro heq
    rw [heq] at h
    exact absurd h (by decide)

/-- The escape of a byte is read as the byte. -/
theorem unitDecode_escapeChar (c : UInt8) (rest : Bytes) : unitDecode (escapeChar c ++ rest) = c :: unitDecode rest := by
  have hhigh := (hexValue_hexDigit (and_lt_sixteen (c >>> 4))).1
  have hlow := (hexValue_hexDigit (and_lt_sixteen c)).1
  have hescape : unitEscape (byte 'x' :: hexDigit ((c >>> 4) &&& 0x0f) :: hexDigit (c &&& 0x0f) :: rest) = some c := by
    rw [unitEscape, if_pos rfl, hhigh, Option.bind_some, hlow, Option.map_some, high_mul_add_low]
  have hdash : byte '\\' ≠ byte '-' := by decide
  have hstring : escapeChar c ++ rest =
      byte '\\' :: byte 'x' :: hexDigit ((c >>> 4) &&& 0x0f) :: hexDigit (c &&& 0x0f) :: rest := rfl
  rw [unitDecode, hstring, unitDecodeFrom, if_neg hdash, if_pos rfl, hescape]
  rfl

/-- What the loop makes of a byte is read as the byte. -/
theorem unitDecode_escapeUnitByte (c : UInt8) (rest : Bytes) :
    unitDecode (escapeUnitByte c ++ rest) = c :: unitDecode rest := by
  rw [escapeUnitByte]
  by_cases hslash : c = byte '/'
  · rw [if_pos hslash, List.singleton_append, unitDecode, unitDecodeFrom, if_pos rfl, hslash]
    rfl
  · rw [if_neg hslash]
    cases hneeds : needsEscape c with
    | true =>
      rw [if_pos rfl]
      exact unitDecode_escapeChar c rest
    | false =>
      obtain ⟨hdash, hbackslash⟩ := ne_of_not_needsEscape hneeds
      rw [if_neg Bool.false_ne_true, List.singleton_append, unitDecode, unitDecodeFrom, if_neg hdash, if_neg hbackslash]
      rfl

/-- What the loop makes of a string is read as the string. -/
theorem unitDecode_flatMap (s : Bytes) : unitDecode (s.flatMap escapeUnitByte) = s := by
  induction s with
  | nil => rfl
  | cons c rest ih => rw [List.flatMap_cons, unitDecode_escapeUnitByte, ih]

/-- An escaped string is read as the string. -/
theorem unitDecode_systemdEscapeUnit (s : Bytes) : unitDecode (systemdEscapeUnit s) = s := by
  cases s with
  | nil => rfl
  | cons c rest =>
    rw [systemdEscapeUnit]
    by_cases hdot : c = byte '.'
    · rw [if_pos hdot, unitDecode_escapeChar, unitDecode_flatMap]
    · rw [if_neg hdot, unitDecode_flatMap]

/-- An escaped string has the characters of an escaped string, does not start with a dot, and is at most four times
as long. -/
theorem systemdEscapeUnit_characters (s : Bytes) : (∀ c ∈ systemdEscapeUnit s, isUnitCharacter c = true) ∧
    (systemdEscapeUnit s).head? ≠ some (byte '.') ∧ (systemdEscapeUnit s).length ≤ 4 * s.length := by
  have hloop (s : Bytes) : (∀ c ∈ s.flatMap escapeUnitByte, isUnitCharacter c = true) ∧
      (s.flatMap escapeUnitByte).length ≤ 4 * s.length := by
    induction s with
    | nil => exact ⟨fun c hc => absurd hc List.not_mem_nil, Nat.le_refl 0⟩
    | cons c rest ih =>
      have hlength := length_escapeUnitByte_le c
      rw [List.flatMap_cons]
      refine ⟨fun d hd => ?_, ?_⟩
      · exact (List.mem_append.mp hd).elim isUnitCharacter_of_mem_escapeUnitByte (ih.1 d)
      · rw [List.length_append, List.length_cons]
        omega
  cases s with
  | nil =>
    refine ⟨fun c hc => absurd hc List.not_mem_nil, fun h => ?_, Nat.le_refl 0⟩
    cases h
  | cons c rest =>
    rw [systemdEscapeUnit]
    by_cases hdot : c = byte '.'
    · obtain ⟨hrest, hlength⟩ := hloop rest
      rw [if_pos hdot]
      refine ⟨fun d hd => ?_, fun h => ?_, ?_⟩
      · exact (List.mem_append.mp hd).elim isUnitCharacter_of_mem_escapeChar (hrest d)
      · have hbackslash : byte '\\' = byte '.' := Option.some.inj h
        exact absurd hbackslash (by decide)
      · have hfour : (escapeChar c).length = 4 := rfl
        rw [List.length_append, hfour, List.length_cons]
        omega
    · obtain ⟨hall, hlength⟩ := hloop (c :: rest)
      rw [if_neg hdot]
      refine ⟨hall, fun h => ?_, hlength⟩
      rw [List.flatMap_cons, escapeUnitByte] at h
      by_cases hslash : c = byte '/'
      · rw [if_pos hslash] at h
        have hdash : byte '-' = byte '.' := Option.some.inj h
        exact absurd hdash (by decide)
      · rw [if_neg hslash] at h
        cases hneeds : needsEscape c with
        | true =>
          rw [hneeds, if_pos rfl] at h
          have hbackslash : byte '\\' = byte '.' := Option.some.inj h
          exact absurd hbackslash (by decide)
        | false =>
          rw [hneeds, if_neg Bool.false_ne_true] at h
          exact hdot (Option.some.inj h)

/-! ## Transient units -/

/-- Services of different names have different transient units. -/
theorem name_eq_of_serviceActiveUnit_eq {uniqueName : Bytes} {service service' : Service} {data data' : ServiceData}
    (hunit : data.unit = none) (hargv : 0 < data.argv.length) (hunit' : data'.unit = none) (hargv' : 0 < data'.argv.length)
    (h : (serviceActiveUnit uniqueName service data).activeUnit = (serviceActiveUnit uniqueName service' data').activeUnit) :
    service.name = service'.name := by
  rw [serviceActiveUnit, serviceActiveUnit, hunit, hunit'] at h
  dsimp only at h
  rw [if_pos hargv, if_pos hargv'] at h
  have hstring := Option.some.inj h
  simp only [List.append_assoc] at hstring
  have hescaped := List.append_cancel_left (List.append_cancel_left (List.append_cancel_left hstring))
  have hat (s tail : Bytes) : (systemdEscapeUnit s ++ (lit "@" ++ tail)).takeWhile (· != byte '@') = systemdEscapeUnit s := by
    have hcharacters : ∀ c ∈ systemdEscapeUnit s, (c != byte '@') = true := by
      intro c hc
      rw [bne_iff_ne]
      intro heq
      have hunitCharacter := (systemdEscapeUnit_characters s).1 c hc
      rw [heq] at hunitCharacter
      exact absurd hunitCharacter (by decide)
    rw [List.takeWhile_append_of_pos hcharacters]
    exact List.append_nil _
  have hsame := congrArg (List.takeWhile (· != byte '@')) hescaped
  rw [hat, hat] at hsame
  rw [← unitDecode_systemdEscapeUnit service.name, hsame, unitDecode_systemdEscapeUnit]

/-- An escaped string has only letters, digits and the characters `:_.-\`, does not start with a dot, fits into its
buffer and can be read back; so services of different names have different transient units. -/
theorem systemdEscapeUnit_lossless : (∀ s : Bytes, (∀ c ∈ systemdEscapeUnit s, isUnitCharacter c = true) ∧
      (systemdEscapeUnit s).head? ≠ some (byte '.') ∧ (systemdEscapeUnit s).length ≤ 4 * s.length ∧
      unitDecode (systemdEscapeUnit s) = s) ∧
    ∀ (uniqueName : Bytes) (service service' : Service) (data data' : ServiceData), data.unit = none →
      0 < data.argv.length → data'.unit = none → 0 < data'.argv.length →
      (serviceActiveUnit uniqueName service data).activeUnit = (serviceActiveUnit uniqueName service' data').activeUnit →
      service.name = service'.name := by
  refine ⟨fun s => ?_, fun _ _ _ _ _ => name_eq_of_serviceActiveUnit_eq⟩
  obtain ⟨hcharacters, hhead, hlength⟩ := systemdEscapeUnit_characters s
  exact ⟨hcharacters, hhead, hlength, unitDecode_systemdEscapeUnit s⟩

/-- A service that is started by a command. -/
def commandData : ServiceData := ⟨some (lit "/usr/share/org.a.service"), none, none, 0, [lit "/usr/bin/a"]⟩

/-- A dash in the name of a service is escaped, so its transient unit is not that of a service with another character. -/
theorem systemdEscapeUnit_lossless_dash :
    (serviceActiveUnit (lit ":1.3") (serviceNew (lit "org.a-b") commandData) commandData).activeUnit =
      some (lit "dbus-:1.3-org.a\\x2db@0.service") ∧
    (serviceActiveUnit (lit ":1.3") (serviceNew (lit "org.a-b") commandData) commandData).activeUnit ≠
      (serviceActiveUnit (lit ":1.3") (serviceNew (lit "org.a_b") commandData) commandData).activeUnit :=
  ⟨rfl, fun h => absurd
    (systemdEscapeUnit_lossless.2 (lit ":1.3") _ _ commandData commandData rfl (by decide) rfl (by decide) h) (by decide)⟩

end DbusBroker
