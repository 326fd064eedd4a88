import DbusBroker.Dbus.Dvar
import Mathlib.Data.List.DropRight

/-!
# UTF-8

The strings that `c_utf8_verify` accepts, against the encoding of Unicode scalar values. A round
of its loop takes one encoded character other than NUL off the front, or ends the scan where no
such character is encoded there, so the scan stops behind the longest encoded text.

The loop hands runs of ASCII to `c_utf8_verify_ascii`, which looks at two words at a time once
the string is aligned. A word is tested for zeros and high bits by a subtraction whose borrow
runs through the whole word. It is modelled with the size of a word as a parameter, and with the
address the string ends at, which alignment depends on.
-/

namespace DbusBroker

/-! ## Characters -/

/-- A tail byte by its value. -/
theorem cUtf8CharIsTail_iff (c : UInt8) : cUtf8CharIsTail c = true ↔ 0x80 ≤ c.toNat ∧ c.toNat ≤ 0xbf := by
  have hall : ∀ n, n < 256 → (cUtf8CharIsTail (UInt8.ofNat n) = true ↔ 0x80 ≤ n ∧ n ≤ 0xbf) := by decide +kernel
  have hc := hall c.toNat c.toNat_lt
  rwa [UInt8.ofNat_toNat] at hc

/-- A byte that is there and lies between two bounds. -/
def byteWithin (lo hi : ℕ) (t : Option UInt8) : Bool :=
  t.elim false fun t => decide (lo ≤ t.toNat) && decide (t.toNat ≤ hi)

theorem byteWithin_some {lo hi : ℕ} {t : UInt8} : byteWithin lo hi (some t) = true ↔ lo ≤ t.toNat ∧ t.toNat ≤ hi := by
  simp [byteWithin]

theorem byteWithin_ofNat {lo hi n : ℕ} (h : n < 256) :
    byteWithin lo hi (some (UInt8.ofNat n)) = true ↔ lo ≤ n ∧ n ≤ hi := by
  rw [byteWithin_some, UInt8.toNat_ofNat', Nat.mod_eq_of_lt h]

theorem exists_of_byteWithin {lo hi : ℕ} {t : Option UInt8} (h : byteWithin lo hi t = true) :
    ∃ c, t = some c ∧ lo ≤ c.toNat ∧ c.toNat ≤ hi := by
  cases t with
  | none => cases h
  | some c => exact ⟨c, rfl, byteWithin_some.mp h⟩

theorem elim_cUtf8CharIsTail (t : Option UInt8) : t.elim false cUtf8CharIsTail = byteWithin 0x80 0xbf t := by
  cases t with
  | none => rfl
  | some c =>
    rw [byteWithin, Option.elim_some, Option.elim_some, Bool.eq_iff_iff, cUtf8CharIsTail_iff]
    simp

/-- One round of the loop by the values of the bytes. -/
theorem cUtf8Char_cons (c : UInt8) (rest : Bytes) :
    cUtf8Char (c :: rest) =
      let n := c.toNat
      let tail (i : ℕ) : Bool := byteWithin 0x80 0xbf rest[i]?
      if n = 0 then 0
      else if n ≤ 0x7f then 1
      else if 0xc2 ≤ n ∧ n ≤ 0xdf then if tail 0 then 2 else 0
      else if n = 0xe0 then if byteWithin 0xa0 0xbf rest[0]? && tail 1 then 3 else 0
      else if 0xe1 ≤ n ∧ n ≤ 0xec then if tail 0 && tail 1 then 3 else 0
      else if n = 0xed then if byteWithin 0x80 0x9f rest[0]? && tail 1 then 3 else 0
      else if 0xee ≤ n ∧ n ≤ 0xef then if tail 0 && tail 1 then 3 else 0
      else if n = 0xf0 then if byteWithin 0x90 0xbf rest[0]? && tail 1 && tail 2 then 4 else 0
      else if 0xf1 ≤ n ∧ n ≤ 0xf3 then if tail 0 && tail 1 && tail 2 then 4 else 0
      else if n = 0xf4 then if byteWithin 0x80 0x8f rest[0]? && tail 1 && tail 2 then 4 else 0
      else 0 := by
  rw [cUtf8Char]
  simp only [elim_cUtf8CharIsTail, UInt8.le_iff_toNat_le, ← UInt8.toNat_inj, Bool.and_eq_true, decide_eq_true_eq]
  rfl

section

variable {c : UInt8} {rest : Bytes}

theorem cUtf8Char_one (h : 1 ≤ c.toNat) (h' : c.toNat ≤ 0x7f) : cUtf8Char (c :: rest) = 1 := by
  rw [cUtf8Char_cons]
  dsimp only
  rw [if_neg (by omega), if_pos h']

theorem cUtf8Char_two (h : 0xc2 ≤ c.toNat) (h' : c.toNat ≤ 0xdf) :
    cUtf8Char (c :: rest) = if byteWithin 0x80 0xbf rest[0]? then 2 else 0 := by
  rw [cUtf8Char_cons]
  dsimp only
  rw [if_neg (by omega), if_neg (by omega), if_pos ⟨h, h'⟩]

/-- Overlong forms are excluded behind the first lead byte, and surrogates behind 0xed. -/
theorem cUtf8Char_three (h : 0xe0 ≤ c.toNat) (h' : c.toNat ≤ 0xef) :
    cUtf8Char (c :: rest) =
      if byteWithin (if c.toNat = 0xe0 then 0xa0 else 0x80) (if c.toNat = 0xed then 0x9f else 0xbf) rest[0]? &&
        byteWithin 0x80 0xbf rest[1]? then 3 else 0 := by
  rw [cUtf8Char_cons]
  dsimp only
  rw [if_neg (by omega), if_neg (by omega), if_neg (by omega)]
  by_cases hfirst : c.toNat = 0xe0
  · rw [if_pos hfirst, if_pos hfirst, if_neg (show c.toNat ≠ 0xed by omega)]
  · rw [if_neg hfirst, if_neg hfirst]
    by_cases hlow : c.toNat ≤ 0xec
    · rw [if_pos ⟨by omega, hlow⟩, if_neg (show c.toNat ≠ 0xed by omega)]
    · rw [if_neg fun hmid => hlow hmid.2]
      by_cases hsurrogate : c.toNat = 0xed
      · rw [if_pos hsurrogate, if_pos hsurrogate]
      · rw [if_neg hsurrogate, if_neg hsurrogate, if_pos ⟨by omega, h'⟩]

/-- Overlong forms are excluded behind the first lead byte, and values past the last character behind the last. -/
theorem cUtf8Char_four (h : 0xf0 ≤ c.toNat) (h' : c.toNat ≤ 0xf4) :
    cUtf8Char (c :: rest) =
      if byteWithin (if c.toNat = 0xf0 then 0x90 else 0x80) (if c.toNat = 0xf4 then 0x8f else 0xbf) rest[0]? &&
        byteWithin 0x80 0xbf rest[1]? && byteWithin 0x80 0xbf rest[2]? then 4 else 0 := by
  rw [cUtf8Char_cons]
  dsimp only
  rw [if_neg (by omega), if_neg (by omega), if_neg (by omega), if_neg (by omega), if_neg (by omega),
    if_neg (by omega), if_neg (by omega)]
  by_cases hfirst : c.toNat = 0xf0
  · rw [if_pos hfirst, if_pos hfirst, if_neg (show c.toNat ≠ 0xf4 by omega)]
  · rw [if_neg hfirst, if_neg hfirst]
    by_cases hlast : c.toNat = 0xf4
    · rw [if_neg (by omega), if_pos hlast, if_pos hlast]
    · rw [if_pos ⟨by omega, by omega⟩, if_neg hlast]

/-- No other byte begins a character. -/
theorem cUtf8Char_other (h : c.toNat = 0 ∨ 0x80 ≤ c.toNat ∧ c.toNat ≤ 0xc1 ∨ 0xf5 ≤ c.toNat) :
    cUtf8Char (c :: rest) = 0 := by
  rw [cUtf8Char_cons]
  dsimp only
  rcases h with h | h | h
  · rw [if_pos h]
  · rw [if_neg (by omega), if_neg (by omega), if_neg (by omega), if_neg (by omega), if_neg (by omega),
      if_neg (by omega), if_neg (by omega), if_neg (by omega), if_neg (by omega), if_neg (by omega)]
  · rw [if_neg (by omega), if_neg (by omega), if_neg (by omega), if_neg (by omega), if_neg (by omega),
      if_neg (by omega), if_neg (by omega), if_neg (by omega), if_neg (by omega), if_neg (by omega)]

end

/-- The encoding of a character by its code point. -/
theorem utf8EncodeChar_eq (c : Char) : String.utf8EncodeChar c =
    let v := c.val.toNat
    if v ≤ 0x7f then [UInt8.ofNat v]
    else if v ≤ 0x7ff then [UInt8.ofNat (v / 64 % 0x20 + 0xc0), UInt8.ofNat (v % 0x40 + 0x80)]
    else if v ≤ 0xffff then
      [UInt8.ofNat (v / 4096 % 0x10 + 0xe0), UInt8.ofNat (v / 64 % 0x40 + 0x80), UInt8.ofNat (v % 0x40 + 0x80)]
    else
      [UInt8.ofNat (v / 262144 % 0x08 + 0xf0), UInt8.ofNat (v / 4096 % 0x40 + 0x80),
        UInt8.ofNat (v / 64 % 0x40 + 0x80), UInt8.ofNat (v % 0x40 + 0x80)] := rfl

/-- A round takes any encoded character other than NUL off the front. -/
theorem cUtf8Char_utf8EncodeChar {c : Char} (hc : c ≠ '\x00') (rest : Bytes) :
    cUtf8Char (String.utf8EncodeChar c ++ rest) = (String.utf8EncodeChar c).length := by
  have hpos : c.val.toNat ≠ 0 := fun h => hc (Char.ext (UInt32.toNat.inj h))
  have hvalid : c.val.toNat < 0xd800 ∨ 0xdfff < c.val.toNat ∧ c.val.toNat < 0x110000 := c.valid
  rw [utf8EncodeChar_eq]
  obtain ⟨v, hv⟩ : ∃ v, c.val.toNat = v := ⟨_, rfl⟩
  rw [hv] at hpos hvalid ⊢
  dsimp only
  have hbyte {n : ℕ} (h : n < 256) : (UInt8.ofNat n).toNat = n := by rw [UInt8.toNat_ofNat', Nat.mod_eq_of_lt h]
  have htail (n : ℕ) : byteWithin 0x80 0xbf (some (UInt8.ofNat (n % 0x40 + 0x80))) = true :=
    (byteWithin_ofNat (by omega)).mpr (by omega)
  by_cases h₁ : v ≤ 0x7f
  · have hlead := hbyte (n := v) (by omega)
    rw [if_pos h₁]
    exact cUtf8Char_one (by omega) (by omega)
  rw [if_neg h₁]
  by_cases h₂ : v ≤ 0x7ff
  · have hlead := hbyte (n := v / 64 % 0x20 + 0xc0) (by omega)
    rw [if_pos h₂, List.cons_append, cUtf8Char_two (by omega) (by omega)]
    exact if_pos (htail v)
  rw [if_neg h₂]
  by_cases h₃ : v ≤ 0xffff
  · have hlead := hbyte (n := v / 4096 % 0x10 + 0xe0) (by omega)
    rw [if_pos h₃, List.cons_append, cUtf8Char_three (by omega) (by omega), hlead]
    refine if_pos ((Bool.and_eq_true _ _).mpr ⟨(byteWithin_ofNat (by omega)).mpr ?_, htail v⟩)
    constructor
    · split <;> omega
    · split <;> omega
  · have hlead := hbyte (n := v / 262144 % 0x08 + 0xf0) (by omega)
    rw [if_neg h₃, List.cons_append, cUtf8Char_four (by omega) (by omega), hlead]
    refine if_pos ((Bool.and_eq_true _ _).mpr ⟨(Bool.and_eq_true _ _).mpr
      ⟨(byteWithin_ofNat (by omega)).mpr ?_, htail (v / 64)⟩, htail v⟩)
    constructor
    · split <;> omega
    · split <;> omega

/-- The character with a code point. -/
theorem exists_char {v : ℕ} (h : v < 0xd800 ∨ 0xdfff < v ∧ v < 0x110000) : ∃ c : Char, c.val.toNat = v :=
  ⟨Char.ofNatAux v h, rfl⟩

/-- An encoded character at the front, which a round takes off. -/
def TakesChar (str : Bytes) : Prop :=
  ∃ c, c ≠ '\x00' ∧ str = String.utf8EncodeChar c ++ str.drop (cUtf8Char str)

theorem takesChar_of_encode (v : ℕ) (used rest : Bytes) (hv : v < 0xd800 ∨ 0xdfff < v ∧ v < 0x110000) (hpos : v ≠ 0)
    (hused : ∀ c : Char, c.val.toNat = v → String.utf8EncodeChar c = used)
    (hlength : cUtf8Char (used ++ rest) = used.length) : TakesChar (used ++ rest) := by
  obtain ⟨c, hc⟩ := exists_char hv
  refine ⟨c, fun hnul => hpos ?_, ?_⟩
  · rw [← hc, hnul]
    rfl
  · rw [hlength, List.drop_left, hused c hc]

theorem drop_of_getElem? {l : Bytes} {i : ℕ} {t : UInt8} (h : l[i]? = some t) : l.drop i = t :: l.drop (i + 1) := by
  obtain ⟨hi, rfl⟩ := List.getElem?_eq_some_iff.mp h
  exact List.drop_eq_getElem_cons hi

theorem ofNat_eq {n : ℕ} {t : UInt8} (h : n = t.toNat) : UInt8.ofNat n = t := by rw [h, UInt8.ofNat_toNat]

section

variable {c : UInt8} {rest : Bytes}

theorem takesChar_two (h : cUtf8Char (c :: rest) ≠ 0) (hlead : 0xc2 ≤ c.toNat) (hlead' : c.toNat ≤ 0xdf) :
    TakesChar (c :: rest) := by
  have hlength := @cUtf8Char_two c rest hlead hlead'
  rw [hlength, ne_eq, ite_eq_right_iff, Classical.not_imp] at h
  rw [if_pos h.1] at hlength
  obtain ⟨t, ht, hlo, hhi⟩ := exists_of_byteWithin h.1
  obtain ⟨r, rfl⟩ : ∃ r, rest = t :: r := ⟨rest.drop 1, by rw [← drop_of_getElem? ht, List.drop_zero]⟩
  refine takesChar_of_encode ((c.toNat - 0xc0) * 64 + (t.toNat - 0x80)) [c, t] r (by omega) (by omega) (fun d hd => ?_)
    hlength
  rw [utf8EncodeChar_eq, hd]
  dsimp only
  rw [if_neg (by omega), if_pos (by omega), ofNat_eq (t := c) (by omega), ofNat_eq (t := t) (by omega)]

theorem takesChar_three (h : cUtf8Char (c :: rest) ≠ 0) (hlead : 0xe0 ≤ c.toNat) (hlead' : c.toNat ≤ 0xef) :
    TakesChar (c :: rest) := by
  have hlength := @cUtf8Char_three c rest hlead hlead'
  rw [hlength, ne_eq, ite_eq_right_iff, Classical.not_imp] at h
  rw [if_pos h.1] at hlength
  obtain ⟨h₀, h₁⟩ := (Bool.and_eq_true _ _).mp h.1
  obtain ⟨t, ht, hlo, hhi⟩ := exists_of_byteWithin h₀
  obtain ⟨u, hu, hulo, huhi⟩ := exists_of_byteWithin h₁
  obtain ⟨r, rfl⟩ : ∃ r, rest = t :: u :: r :=
    ⟨rest.drop 2, by rw [← drop_of_getElem? hu, ← drop_of_getElem? ht, List.drop_zero]⟩
  have hfirst : c.toNat = 0xe0 → 0xa0 ≤ t.toNat := fun heq => by rwa [if_pos heq] at hlo
  have hsurrogate : c.toNat = 0xed → t.toNat ≤ 0x9f := fun heq => by rwa [if_pos heq] at hhi
  have ht' : 0x80 ≤ t.toNat ∧ t.toNat ≤ 0xbf := by split at hlo <;> split at hhi <;> omega
  refine takesChar_of_encode ((c.toNat - 0xe0) * 4096 + (t.toNat - 0x80) * 64 + (u.toNat - 0x80)) [c, t, u] r
    (by omega) (by omega) (fun d hd => ?_) hlength
  rw [utf8EncodeChar_eq, hd]
  dsimp only
  rw [if_neg (by omega), if_neg (by omega), if_pos (by omega), ofNat_eq (t := c) (by omega),
    ofNat_eq (t := t) (by omega), ofNat_eq (t := u) (by omega)]

theorem takesChar_four (h : cUtf8Char (c :: rest) ≠ 0) (hlead : 0xf0 ≤ c.toNat) (hlead' : c.toNat ≤ 0xf4) :
    TakesChar (c :: rest) := by
  have hlength := @cUtf8Char_four c rest hlead hlead'
  rw [hlength, ne_eq, ite_eq_right_iff, Classical.not_imp] at h
  rw [if_pos h.1] at hlength
  obtain ⟨h₀₁, h₂⟩ := (Bool.and_eq_true _ _).mp h.1
  obtain ⟨h₀, h₁⟩ := (Bool.and_eq_true _ _).mp h₀₁
  obtain ⟨t, ht, hlo, hhi⟩ := exists_of_byteWithin h₀
  obtain ⟨u, hu, hulo, huhi⟩ := exists_of_byteWithin h₁
  obtain ⟨w, hw, hwlo, hwhi⟩ := exists_of_byteWithin h₂
  obtain ⟨r, rfl⟩ : ∃ r, rest = t :: u :: w :: r :=
    ⟨rest.drop 3, by rw [← drop_of_getElem? hw, ← drop_of_getElem? hu, ← drop_of_getElem? ht, List.drop_zero]⟩
  have hfirst : c.toNat = 0xf0 → 0x90 ≤ t.toNat := fun heq => by rwa [if_pos heq] at hlo
  have hlast : c.toNat = 0xf4 → t.toNat ≤ 0x8f := fun heq => by rwa [if_pos heq] at hhi
  have ht' : 0x80 ≤ t.toNat ∧ t.toNat ≤ 0xbf := by split at hlo <;> split at hhi <;> omega
  refine takesChar_of_encode
    ((c.toNat - 0xf0) * 262144 + (t.toNat - 0x80) * 4096 + (u.toNat - 0x80) * 64 + (w.toNat - 0x80)) [c, t, u, w] r
    (by omega) (by omega) (fun d hd => ?_) hlength
  rw [utf8EncodeChar_eq, hd]
  dsimp only
  rw [if_neg (by omega), if_neg (by omega), if_neg (by omega), ofNat_eq (t := c) (by omega),
    ofNat_eq (t := t) (by omega), ofNat_eq (t := u) (by omega), ofNat_eq (t := w) (by omega)]

end

/-- What a round takes off the front is an encoded character other than NUL. -/
theorem takesChar_of_cUtf8Char {str : Bytes} (h : cUtf8Char str ≠ 0) : TakesChar str := by
  cases str with
  | nil => exact absurd rfl h
  | cons c rest =>
    by_cases h₁ : 1 ≤ c.toNat ∧ c.toNat ≤ 0x7f
    · refine takesChar_of_encode c.toNat [c] rest (by omega) (by omega) (fun d hd => ?_) (cUtf8Char_one h₁.1 h₁.2)
      rw [utf8EncodeChar_eq, hd]
      dsimp only
      rw [if_pos h₁.2, UInt8.ofNat_toNat]
    by_cases h₂ : 0xc2 ≤ c.toNat ∧ c.toNat ≤ 0xdf
    · exact takesChar_two h h₂.1 h₂.2
    by_cases h₃ : 0xe0 ≤ c.toNat ∧ c.toNat ≤ 0xef
    · exact takesChar_three h h₃.1 h₃.2
    by_cases h₄ : 0xf0 ≤ c.toNat ∧ c.toNat ≤ 0xf4
    · exact takesChar_four h h₄.1 h₄.2
    · exact absurd (cUtf8Char_other (by omega)) h

/-! ## Strings -/

/-- The encoding of a text. -/
def utf8Text (cs : List Char) : Bytes := cs.flatMap String.utf8EncodeChar

theorem utf8Text_cons (c : Char) (cs : List Char) : utf8Text (c :: cs) = String.utf8EncodeChar c ++ utf8Text cs :=
  List.flatMap_cons

/-- Where no character can be taken off, no encoded text other than the empty one begins. -/
theorem eq_nil_of_cUtf8Char {str : Bytes} (h : cUtf8Char str = 0) {cs : List Char} (hcs : '\x00' ∉ cs)
    (hbegins : utf8Text cs <+: str) : cs = [] := by
  cases cs with
  | nil => rfl
  | cons c rest =>
    obtain ⟨tail, rfl⟩ := hbegins
    have hc : c ≠ '\x00' := fun hnul => hcs (by simp [hnul])
    rw [utf8Text_cons, List.append_assoc, cUtf8Char_utf8EncodeChar hc, String.length_utf8EncodeChar] at h
    exact absurd h (Nat.pos_iff_ne_zero.mp c.utf8Size_pos)

theorem utf8EncodeChar_injective {c d : Char} (h : String.utf8EncodeChar c = String.utf8EncodeChar d) : c = d := by
  have hc := ByteArray.utf8DecodeChar?_utf8EncodeChar_append (b := .empty) (c := c)
  rw [h, ByteArray.utf8DecodeChar?_utf8EncodeChar_append, Option.some.injEq] at hc
  exact hc.symm

/-- The texts that begin a string with a character in front are the empty one and those that begin with it. -/
theorem utf8Text_prefix_cons {c : Char} (hc : c ≠ '\x00') {cs : List Char} (hcs : '\x00' ∉ cs) {rest : Bytes} :
    utf8Text cs <+: String.utf8EncodeChar c ++ rest ↔ cs = [] ∨ ∃ cs', cs = c :: cs' ∧ utf8Text cs' <+: rest := by
  constructor
  · intro h
    cases cs with
    | nil => exact .inl rfl
    | cons d cs' =>
      have hd : d ≠ '\x00' := fun hnul => hcs (by simp [hnul])
      obtain ⟨tail, htail⟩ := h
      rw [utf8Text_cons, List.append_assoc] at htail
      have hlength := cUtf8Char_utf8EncodeChar hd (utf8Text cs' ++ tail)
      rw [htail, cUtf8Char_utf8EncodeChar hc] at hlength
      obtain ⟨hchar, hrest⟩ := List.append_inj htail hlength.symm
      exact .inr ⟨cs', by rw [utf8EncodeChar_injective hchar], tail, hrest⟩
  · rintro (rfl | ⟨cs', rfl, tail, rfl⟩)
    · exact List.nil_prefix
    · exact ⟨tail, by rw [utf8Text_cons, List.append_assoc]⟩

/-- The scan takes a text of characters other than NUL off the front, the longest that is there. -/
theorem cUtf8VerifyFuel_longest {fuel : ℕ} {str : Bytes} (hfuel : str.length ≤ fuel) :
    ∃ cs, '\x00' ∉ cs ∧ str = utf8Text cs ++ cUtf8VerifyFuel fuel str ∧
      ∀ cs', '\x00' ∉ cs' → (utf8Text cs' <+: str ↔ cs' <+: cs) := by
  have hstop {str : Bytes} (h : cUtf8Char str = 0) (cs' : List Char) (hcs' : '\x00' ∉ cs') :
      utf8Text cs' <+: str ↔ cs' <+: [] := by
    rw [List.prefix_nil]
    refine ⟨eq_nil_of_cUtf8Char h hcs', ?_⟩
    rintro rfl
    exact List.nil_prefix
  induction fuel generalizing str with
  | zero =>
    obtain rfl := List.eq_nil_of_length_eq_zero (Nat.le_zero.mp hfuel)
    exact ⟨[], by simp, rfl, hstop rfl⟩
  | succ fuel ih =>
    rw [cUtf8VerifyFuel]
    by_cases h : cUtf8Char str = 0
    · rw [if_pos h]
      exact ⟨[], by simp, rfl, hstop h⟩
    · rw [if_neg h]
      obtain ⟨c, hc, hstr⟩ := takesChar_of_cUtf8Char h
      obtain ⟨rest, hrest⟩ : ∃ rest, str.drop (cUtf8Char str) = rest := ⟨_, rfl⟩
      rw [hrest] at hstr ⊢
      have hlength : rest.length ≤ fuel := by
        have hpos := c.utf8Size_pos
        rw [hstr, List.length_append, String.length_utf8EncodeChar] at hfuel
        omega
      obtain ⟨cs, hcs, heq, hlongest⟩ := ih hlength
      refine ⟨c :: cs, by simp [hcs, Ne.symm hc], ?_, fun cs' hcs' => ?_⟩
      · rw [utf8Text_cons, List.append_assoc, ← heq]
        exact hstr
      · rw [hstr, utf8Text_prefix_cons hc hcs']
        constructor
        · rintro (rfl | ⟨cs'', rfl, hbegins⟩)
          · exact List.nil_prefix
          · rw [List.cons_prefix_cons]
            exact ⟨rfl, (hlongest cs'' fun hmem => hcs' (List.mem_cons_of_mem _ hmem)).mp hbegins⟩
        · intro hbegins
          cases cs' with
          | nil => exact .inl rfl
          | cons d cs'' =>
            obtain ⟨rfl, htail⟩ := List.cons_prefix_cons.mp hbegins
            exact .inr ⟨cs'', rfl, (hlongest cs'' fun hmem => hcs' (List.mem_cons_of_mem _ hmem)).mpr htail⟩

/-- The scan stops behind the longest encoded text of characters other than NUL that a string begins with, and a
string is accepted if it is such a text. -/
theorem cUtf8Verify_longest (str : Bytes) :
    (∃ cs, '\x00' ∉ cs ∧ str = utf8Text cs ++ cUtf8Verify str ∧
      ∀ cs', '\x00' ∉ cs' → (utf8Text cs' <+: str ↔ cs' <+: cs)) ∧
    (cDvarIsString str = true ↔ ∃ cs, '\x00' ∉ cs ∧ str = utf8Text cs) := by
  obtain ⟨cs, hcs, heq, hlongest⟩ := cUtf8VerifyFuel_longest (Nat.le_refl str.length)
  refine ⟨⟨cs, hcs, heq, hlongest⟩, ?_⟩
  rw [cDvarIsString, List.isEmpty_iff]
  constructor
  · intro hempty
    refine ⟨cs, hcs, ?_⟩
    rw [cUtf8Verify] at hempty
    rwa [hempty, List.append_nil] at heq
  · rintro ⟨cs', hcs', rfl⟩
    obtain ⟨tail, rfl⟩ := (hlongest cs' hcs').mp (List.prefix_refl _)
    have hlength := congrArg List.length heq
    rw [utf8Text, utf8Text, List.flatMap_append, List.length_append, List.length_append] at hlength
    exact List.eq_nil_of_length_eq_zero (by rw [cUtf8Verify]; unfold utf8Text; omega)

/-! ## Words -/

/-- `C_UTF8_ASCII_SUB`, truncated to the size of a word. -/
def cUtf8AsciiSub (size : ℕ) : ℕ := 0x0101010101010101 % 256 ^ size

/-- `C_UTF8_ASCII_MASK`, truncated to the size of a word. -/
def cUtf8AsciiMask (size : ℕ) : ℕ := 0x8080808080808080 % 256 ^ size

/-- `c_utf8_word_is_ascii`. The subtraction wraps around. -/
def cUtf8WordIsAscii (size word : ℕ) : Bool :=
  ((word + 256 ^ size - cUtf8AsciiSub size) % 256 ^ size ||| word) &&& cUtf8AsciiMask size == 0

/-- A little-endian load. -/
def cLoadLe : Bytes → ℕ
  | [] => 0
  | c :: rest => c.toNat + 256 * cLoadLe rest

/-- A byte that the scan for ASCII takes. -/
def isAsciiByte (c : UInt8) : Bool := c ≠ 0 && c < 128

/-- The loop of `c_utf8_verify_ascii` over two words at a time. -/
def cUtf8AsciiWords (size : ℕ) : ℕ → Bytes → Bytes
  | 0, str => str
  | fuel + 1, str =>
    if 2 * size ≤ str.length then
      if !cUtf8WordIsAscii size (cLoadLe (str.take size)) ||
          !cUtf8WordIsAscii size (cLoadLe ((str.drop size).take size)) then str
      else cUtf8AsciiWords size fuel (str.drop (2 * size))
    else str

/-- The loop behind it to the end of the ASCII characters, and whether it ended at a zero. -/
def cUtf8AsciiBytes : Bytes → Bool × Bytes
  | [] => (false, [])
  | c :: rest => if c < 128 then if c = 0 then (true, c :: rest) else cUtf8AsciiBytes rest else (false, c :: rest)

/-- The loop of `c_utf8_verify_ascii`. The string ends at an address, and is aligned if its own address is a multiple of
the size of a word. -/
def cUtf8AsciiLoop (size last : ℕ) : ℕ → Bytes → Bytes
  | 0, str => str
  | _, [] => []
  | fuel + 1, c :: rest =>
    if c < 128 then
      if (last - (c :: rest).length) % size = 0 then
        let r := cUtf8AsciiBytes (cUtf8AsciiWords size (c :: rest).length (c :: rest))
        if r.1 then r.2 else cUtf8AsciiLoop size last fuel r.2
      else if c = 0 then c :: rest
      else cUtf8AsciiLoop size last fuel rest
    else c :: rest

/-- `c_utf8_verify_ascii`. -/
def cUtf8VerifyAscii (size last : ℕ) (str : Bytes) : Bytes := cUtf8AsciiLoop size last (str.length + 1) str

/-- The loop of `c_utf8_verify` with its special case for ASCII. -/
def cUtf8VerifyLoop (size last : ℕ) : ℕ → Bytes → Bytes
  | 0, str => str
  | _, [] => []
  | fuel + 1, c :: rest =>
    if 1 ≤ c && c ≤ 0x7f then cUtf8VerifyLoop size last fuel (cUtf8VerifyAscii size last (c :: rest))
    else if cUtf8Char (c :: rest) = 0 then c :: rest
    else cUtf8VerifyLoop size last fuel ((c :: rest).drop (cUtf8Char (c :: rest)))

/-- The number of all ones in base 256. -/
def repunit : ℕ → ℕ
  | 0 => 0
  | n + 1 => 1 + 256 * repunit n

theorem cUtf8AsciiSub_eq {size : ℕ} (h : size ≤ 8) : cUtf8AsciiSub size = repunit size := by
  have hall : ∀ n ≤ 8, cUtf8AsciiSub n = repunit n := by decide +kernel
  exact hall size h

theorem cUtf8AsciiMask_eq {size : ℕ} (h : size ≤ 8) : cUtf8AsciiMask size = 128 * repunit size := by
  have hall : ∀ n ≤ 8, cUtf8AsciiMask n = 128 * repunit n := by decide +kernel
  exact hall size h

theorem repunit_eq (n : ℕ) : 255 * repunit n + 1 = 256 ^ n := by
  induction n with
  | zero => rfl
  | succ n ih =>
    rw [repunit, Nat.pow_succ, ← ih]
    omega

/-- The low byte and the other bytes of a combination of words. -/
theorem or_and_eq_zero_iff (x y z : ℕ) : (x ||| y) &&& z = 0 ↔
    (x % 256 ||| y % 256) &&& z % 256 = 0 ∧ (x / 256 ||| y / 256) &&& z / 256 = 0 := by
  have hmod : ((x ||| y) &&& z) % 2 ^ 8 = (x % 2 ^ 8 ||| y % 2 ^ 8) &&& z % 2 ^ 8 := by
    rw [Nat.and_mod_two_pow, Nat.or_mod_two_pow]
  have hdiv : ((x ||| y) &&& z) / 2 ^ 8 = (x / 2 ^ 8 ||| y / 2 ^ 8) &&& z / 2 ^ 8 := by
    rw [Nat.and_div_two_pow, Nat.or_div_two_pow]
  rw [show (256 : ℕ) = 2 ^ 8 from rfl, ← hmod, ← hdiv]
  omega

theorem isAsciiByte_iff (c : UInt8) : isAsciiByte c = true ↔ c.toNat ≠ 0 ∧ c.toNat < 128 := by
  simp only [isAsciiByte, Bool.and_eq_true, decide_eq_true_eq, UInt8.lt_iff_toNat_lt, ne_eq, ← UInt8.toNat_inj]
  rfl

/-- The test of a word goes through its bytes: below the first zero nothing is borrowed, so a byte loses one at most,
and a zero byte comes out with its high bit set. -/
theorem wordIsAscii_iff (d : Bytes) :
    ((cLoadLe d + 256 ^ d.length - repunit d.length) % 256 ^ d.length ||| cLoadLe d) &&& 128 * repunit d.length = 0 ↔
      ∀ c ∈ d, isAsciiByte c = true := by
  induction d with
  | nil => simp [repunit]
  | cons c rest ih =>
    have hrep := repunit_eq rest.length
    have hc := c.toNat_lt
    rw [List.length_cons, cLoadLe, repunit, Nat.pow_succ, Nat.mul_comm (256 ^ _) 256, or_and_eq_zero_iff,
      List.forall_mem_cons, ← ih, isAsciiByte_iff]
    obtain ⟨w, hw⟩ : ∃ w, cLoadLe rest = w := ⟨_, rfl⟩
    obtain ⟨p, hp⟩ : ∃ p, 256 ^ rest.length = p := ⟨_, rfl⟩
    obtain ⟨r, hr⟩ : ∃ r, repunit rest.length = r := ⟨_, rfl⟩
    obtain ⟨b, hb⟩ : ∃ b, c.toNat = b := ⟨_, rfl⟩
    rw [hp, hr] at hrep
    rw [hb] at hc
    rw [hw, hp, hr, hb, Nat.mod_mul]
    have hlow : (b + 256 * w) % 256 = b := by omega
    have hhigh : (b + 256 * w) / 256 = w := by omega
    have hmask : 128 * (1 + 256 * r) % 256 = 128 ∧ 128 * (1 + 256 * r) / 256 = 128 * r := by omega
    rw [hlow, hhigh, hmask.1, hmask.2]
    by_cases hzero : b = 0
    · have hborrow : (b + 256 * w + 256 * p - (1 + 256 * r)) % 256 = 255 := by omega
      have hfirst : ∀ x, (255 + 256 * x) % 256 = 255 := by omega
      rw [hborrow, hfirst, hzero]
      exact iff_of_false (fun h => absurd h.1 (by decide)) fun h => h.1.1 rfl
    · have hkeep : (b + 256 * w + 256 * p - (1 + 256 * r)) % 256 = b - 1 := by omega
      have hrest : (b + 256 * w + 256 * p - (1 + 256 * r)) / 256 = w + p - r := by omega
      have hfirst : ∀ x, (b - 1 + 256 * x) % 256 = b - 1 ∧ (b - 1 + 256 * x) / 256 = x := by omega
      have hbits : ∀ n < 256, n ≠ 0 → ((n - 1 ||| n) &&& 128 = 0 ↔ n < 128) := by decide +kernel
      rw [hkeep, hrest, (hfirst _).1, (hfirst _).2, hbits b hc hzero]
      exact and_congr_left fun _ => ⟨fun h => ⟨hzero, h⟩, fun h => h.2⟩

/-- The test of a word is one of its bytes. -/
theorem cUtf8WordIsAscii_iff {size : ℕ} (h : size ≤ 8) {d : Bytes} (hd : d.length = size) :
    cUtf8WordIsAscii size (cLoadLe d) = true ↔ ∀ c ∈ d, isAsciiByte c = true := by
  rw [cUtf8WordIsAscii, cUtf8AsciiSub_eq h, cUtf8AsciiMask_eq h, beq_iff_eq, ← hd]
  exact wordIsAscii_iff d

/-- Whole words of ASCII that are skipped leave the rest of the run of ASCII. -/
theorem dropWhile_cUtf8AsciiWords {size : ℕ} (h : size ≤ 8) (fuel : ℕ) (str : Bytes) :
    (cUtf8AsciiWords size fuel str).dropWhile isAsciiByte = str.dropWhile isAsciiByte := by
  induction fuel generalizing str with
  | zero => rfl
  | succ fuel ih =>
    rw [cUtf8AsciiWords]
    by_cases hlength : 2 * size ≤ str.length
    · rw [if_pos hlength]
      by_cases hstop : (!cUtf8WordIsAscii size (cLoadLe (str.take size)) ||
          !cUtf8WordIsAscii size (cLoadLe ((str.drop size).take size))) = true
      · rw [if_pos hstop]
      · rw [if_neg hstop, ih]
        simp only [Bool.or_eq_true, Bool.not_eq_true', not_or, Bool.not_eq_false] at hstop
        have hfirst := (cUtf8WordIsAscii_iff h (List.length_take_of_le (by omega))).mp hstop.1
        have hsecond := (cUtf8WordIsAscii_iff h
          (List.length_take_of_le (by rw [List.length_drop]; omega))).mp hstop.2
        have hsplit : str = str.take size ++ (str.drop size).take size ++ str.drop (2 * size) := by
          rw [List.append_assoc, Nat.two_mul, ← List.drop_drop, List.take_append_drop, List.take_append_drop]
        conv_rhs => rw [hsplit]
        rw [List.dropWhile_append_of_pos]
        intro c hc
        rcases List.mem_append.mp hc with hc | hc
        · exact hfirst c hc
        · exact hsecond c hc
    · rw [if_neg hlength]

/-- The bytes behind the words are scanned to the end of the run. -/
theorem cUtf8AsciiBytes_eq (str : Bytes) : (cUtf8AsciiBytes str).2 = str.dropWhile isAsciiByte := by
  induction str with
  | nil => rfl
  | cons c rest ih =>
    rw [cUtf8AsciiBytes, List.dropWhile_cons, isAsciiByte]
    by_cases hlt : c < 128
    · rw [if_pos hlt]
      by_cases hzero : c = 0
      · simp [hzero]
      · simp [hzero, hlt, ih]
    · simp [hlt]

/-- The aligned branch of the loop goes to the end of the run. -/
theorem cUtf8AsciiBytes_words {size : ℕ} (h : size ≤ 8) (str : Bytes) :
    (cUtf8AsciiBytes (cUtf8AsciiWords size str.length str)).2 = str.dropWhile isAsciiByte := by
  rw [cUtf8AsciiBytes_eq, dropWhile_cUtf8AsciiWords h]

theorem dropWhile_isAsciiByte_cons {c : UInt8} {rest : Bytes} (h : isAsciiByte c = false) :
    (c :: rest).dropWhile isAsciiByte = c :: rest := by
  rw [List.dropWhile_cons, h]
  rfl

/-- Past the run the loop ends. -/
theorem cUtf8AsciiLoop_of_end {size : ℕ} (h : size ≤ 8) (last fuel : ℕ) {str : Bytes}
    (hend : str.dropWhile isAsciiByte = str) : cUtf8AsciiLoop size last fuel str = str := by
  induction fuel with
  | zero => cases str <;> rfl
  | succ fuel ih =>
    cases str with
    | nil => rfl
    | cons c rest =>
      rw [cUtf8AsciiLoop]
      by_cases hlt : c < 128
      · rw [if_pos hlt]
        by_cases haligned : (last - (c :: rest).length) % size = 0
        · rw [if_pos haligned]
          dsimp only
          rw [cUtf8AsciiBytes_words h, hend]
          split
          · rfl
          · exact ih
        · have hzero : c = 0 := by
            by_contra hzero
            have hascii : isAsciiByte c = true := by simp [isAsciiByte, hzero, hlt]
            rw [List.dropWhile_cons, if_pos hascii] at hend
            have hlength := congrArg List.length hend
            have hle := (List.dropWhile_sublist isAsciiByte (l := rest)).length_le
            rw [List.length_cons] at hlength
            omega
          rw [if_neg haligned, if_pos hzero]
      · rw [if_neg hlt]

/-- The loop ends at the end of the run of ASCII, whatever the alignment of the string. -/
theorem cUtf8AsciiLoop_eq {size : ℕ} (h : size ≤ 8) (last : ℕ) {fuel : ℕ} {str : Bytes} (hfuel : str.length < fuel) :
    cUtf8AsciiLoop size last fuel str = str.dropWhile isAsciiByte := by
  induction fuel generalizing str with
  | zero => cases hfuel
  | succ fuel ih =>
    cases str with
    | nil => rfl
    | cons c rest =>
      rw [cUtf8AsciiLoop]
      by_cases hlt : c < 128
      · rw [if_pos hlt]
        by_cases haligned : (last - (c :: rest).length) % size = 0
        · rw [if_pos haligned]
          dsimp only
          rw [cUtf8AsciiBytes_words h]
          split
          · rfl
          · exact cUtf8AsciiLoop_of_end h last fuel (List.dropWhile_idempotent _ _)
        · rw [if_neg haligned]
          by_cases hzero : c = 0
          · rw [if_pos hzero, dropWhile_isAsciiByte_cons (by simp [isAsciiByte, hzero])]
          · have hascii : isAsciiByte c = true := by simp [isAsciiByte, hzero, hlt]
            rw [if_neg hzero, List.dropWhile_cons, if_pos hascii]
            exact ih (Nat.lt_of_succ_lt_succ hfuel)
      · rw [if_neg hlt, dropWhile_isAsciiByte_cons (by simp [isAsciiByte, hlt])]

/-- A character has at least one byte. -/
theorem length_drop_cUtf8Char {str : Bytes} (h : cUtf8Char str ≠ 0) :
    (str.drop (cUtf8Char str)).length < str.length := by
  cases str with
  | nil => exact absurd rfl h
  | cons c rest =>
    rw [List.length_drop, List.length_cons]
    omega

/-- The scan does not depend on the bound on its rounds. -/
theorem cUtf8VerifyFuel_eq {fuel fuel' : ℕ} {str : Bytes} (h : str.length ≤ fuel) (h' : str.length ≤ fuel') :
    cUtf8VerifyFuel fuel str = cUtf8VerifyFuel fuel' str := by
  induction fuel generalizing fuel' str with
  | zero =>
    obtain rfl := List.eq_nil_of_length_eq_zero (Nat.le_zero.mp h)
    cases fuel' <;> rfl
  | succ fuel ih =>
    cases fuel' with
    | zero =>
      obtain rfl := List.eq_nil_of_length_eq_zero (Nat.le_zero.mp h')
      rfl
    | succ fuel' =>
      rw [cUtf8VerifyFuel, cUtf8VerifyFuel]
      by_cases hchar : cUtf8Char str = 0
      · rw [if_pos hchar, if_pos hchar]
      · have hlength := length_drop_cUtf8Char hchar
        rw [if_neg hchar, if_neg hchar]
        exact ih (by omega) (by omega)

/-- The scan goes on behind the first character. -/
theorem cUtf8Verify_eq (str : Bytes) :
    cUtf8Verify str = if cUtf8Char str = 0 then str else cUtf8Verify (str.drop (cUtf8Char str)) := by
  rw [cUtf8Verify, cUtf8VerifyFuel_eq (Nat.le_refl _) (Nat.le_succ str.length), cUtf8VerifyFuel]
  by_cases hchar : cUtf8Char str = 0
  · rw [if_pos hchar, if_pos hchar]
  · have hlength := length_drop_cUtf8Char hchar
    rw [if_neg hchar, if_neg hchar, cUtf8Verify]
    exact cUtf8VerifyFuel_eq (by omega) (Nat.le_refl _)

/-- The scan passes a run of ASCII. -/
theorem cUtf8Verify_dropWhile (str : Bytes) : cUtf8Verify (str.dropWhile isAsciiByte) = cUtf8Verify str := by
  induction str with
  | nil => rfl
  | cons c rest ih =>
    cases hascii : isAsciiByte c with
    | false => rw [dropWhile_isAsciiByte_cons hascii]
    | true =>
      have hbyte := (isAsciiByte_iff c).mp hascii
      have hchar : cUtf8Char (c :: rest) = 1 := cUtf8Char_one (by omega) (by omega)
      rw [List.dropWhile_cons, if_pos hascii, ih, cUtf8Verify_eq (c :: rest), hchar]
      rfl

/-- The loop with words takes the same characters off the front. -/
theorem cUtf8VerifyLoop_eq {size : ℕ} (h : size ≤ 8) (last : ℕ) {fuel : ℕ} {str : Bytes} (hfuel : str.length < fuel) :
    cUtf8VerifyLoop size last fuel str = cUtf8Verify str := by
  induction fuel generalizing str with
  | zero => cases hfuel
  | succ fuel ih =>
    cases str with
    | nil => rfl
    | cons c rest =>
      rw [cUtf8VerifyLoop]
      by_cases hascii : (1 ≤ c && c ≤ 0x7f) = true
      · have hbyte : 1 ≤ c.toNat ∧ c.toNat ≤ 0x7f := by
          have hword : (1 : UInt8).toNat ≤ c.toNat ∧ c.toNat ≤ (0x7f : UInt8).toNat := by
            simpa only [Bool.and_eq_true, decide_eq_true_eq, UInt8.le_iff_toNat_le] using hascii
          exact hword
        have hrun : isAsciiByte c = true := (isAsciiByte_iff c).mpr (by omega)
        have hlength : ((c :: rest).dropWhile isAsciiByte).length < fuel := by
          have hle := (List.dropWhile_sublist isAsciiByte (l := rest)).length_le
          rw [List.dropWhile_cons, if_pos hrun]
          rw [List.length_cons] at hfuel
          omega
        rw [if_pos hascii, cUtf8VerifyAscii, cUtf8AsciiLoop_eq h last (Nat.lt_succ_self _), ih hlength,
          cUtf8Verify_dropWhile]
      · rw [if_neg hascii, cUtf8Verify_eq (c :: rest)]
        by_cases hchar : cUtf8Char (c :: rest) = 0
        · rw [if_pos hchar, if_pos hchar]
        · have hlength := length_drop_cUtf8Char hchar
          rw [if_neg hchar, if_neg hchar, ih (by omega)]

/-- `c_utf8_verify` as it is written, with words. -/
def cUtf8VerifyWords (size last : ℕ) (str : Bytes) : Bytes := cUtf8VerifyLoop size last (str.length + 1) str

/-- Looking at words finds the same end as looking at bytes: for every size of a word up to eight bytes and every
address of the string, the scan for ASCII stops at the first byte that is zero or not ASCII, and the scan for UTF-8
where the one without words does. -/
theorem cUtf8VerifyWords_eq (size last : ℕ) (h : size ≤ 8) (str : Bytes) :
    cUtf8VerifyAscii size last str = str.dropWhile isAsciiByte ∧ cUtf8VerifyWords size last str = cUtf8Verify str :=
  ⟨cUtf8AsciiLoop_eq h last (Nat.lt_succ_self _), cUtf8VerifyLoop_eq h last (Nat.lt_succ_self _)⟩

/-- The second word ends in a zero. -/
theorem cUtf8VerifyWords_eq_zero :
    cUtf8VerifyAscii 4 32 (lit "org.fre\x00rest") = (lit "org.fre\x00rest").dropWhile isAsciiByte ∧
      cUtf8VerifyWords 4 32 (lit "org.fre\x00rest") = cUtf8Verify (lit "org.fre\x00rest") :=
  cUtf8VerifyWords_eq 4 32 (by decide) _

end DbusBroker
