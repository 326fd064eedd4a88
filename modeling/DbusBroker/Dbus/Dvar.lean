import DbusBroker.Lib.AlignedReader
import DbusBroker.Dbus.IQueue
import DbusBroker.Dbus.Protocol

/-!
# Reading D-Bus data

The reader of the `c-dvar` library as the broker uses it, with the UTF-8 check of `c-utf8`. A
type is its signature, since the library keeps one entry for every character of it. A level of
nesting is a level of the recursion, so the number of levels that are left is its argument.

The first error poisons the variant; here it ends the reading. A variant takes its type from
the data once `c_dvar_is_type` has accepted it; the checks of `c_dvar_type_new_from_signature`
are weaker and only the length it finds is kept.
-/

namespace DbusBroker

open AlignedReader

/-- The errors of the reader. -/
inductive DvarError where
  | depthOverflow
  | corruptData
  | outOfBounds
  | typeMismatch
  | notRecoverable
  deriving DecidableEq, Repr

/-- A reader of D-Bus data. -/
abbrev DvarReader (α : Type) := AlignedReader DvarError UInt8 α

/-- `C_DVAR_TYPE_DEPTH_MAX`. -/
def cDvarTypeDepthMax : ℕ := 64

/-- `C_DVAR_TYPE_LENGTH_MAX`. -/
def cDvarTypeLengthMax : ℕ := 255

/-! ## Strings and types -/

/-- `C_UTF8_CHAR_IS_TAIL`. -/
def cUtf8CharIsTail (c : UInt8) : Bool := c &&& 0xc0 == 0x80

/-- One round of the loop of `c_utf8_verify`: the length of the character in front, zero where the scan ends. -/
def cUtf8Char : Bytes → ℕ
  | [] => 0
  | c :: rest =>
    let tail (i : ℕ) : Bool := rest[i]?.elim false cUtf8CharIsTail
    let second (lo hi : UInt8) : Bool := rest[0]?.elim false fun t => lo ≤ t && t ≤ hi
    if c = 0 then 0
    else if c ≤ 0x7f then 1
    else if 0xc2 ≤ c && c ≤ 0xdf then if tail 0 then 2 else 0
    else if c = 0xe0 then if second 0xa0 0xbf && tail 1 then 3 else 0
    else if 0xe1 ≤ c && c ≤ 0xec then if tail 0 && tail 1 then 3 else 0
    else if c = 0xed then if second 0x80 0x9f && tail 1 then 3 else 0
    else if 0xee ≤ c && c ≤ 0xef then if tail 0 && tail 1 then 3 else 0
    else if c = 0xf0 then if second 0x90 0xbf && tail 1 && tail 2 then 4 else 0
    else if 0xf1 ≤ c && c ≤ 0xf3 then if tail 0 && tail 1 && tail 2 then 4 else 0
    else if c = 0xf4 then if second 0x80 0x8f && tail 1 && tail 2 then 4 else 0
    else 0

/-- The loop of `c_utf8_verify`, with a bound on its rounds. -/
def cUtf8VerifyFuel : ℕ → Bytes → Bytes
  | 0, str => str
  | fuel + 1, str => if cUtf8Char str = 0 then str else cUtf8VerifyFuel fuel (str.drop (cUtf8Char str))

/-- `c_utf8_verify`: what is left of the string where the scan ends. -/
def cUtf8Verify (str : Bytes) : Bytes := cUtf8VerifyFuel str.length str

/-- `c_dvar_is_string`. The string is followed by a zero. -/
def cDvarIsString (str : Bytes) : Bool := (cUtf8Verify str).isEmpty

/-- The characters of basic types. -/
def cDvarBasic : Bytes := lit "ybnqiuxthdsog"

/-- One check of `c_dvar_verify_type` for the members of a dict entry, by the two characters before. -/
def cDvarVerifyDict (c : UInt8) (before : Bytes) : Bool :=
  if before[0]? = some (byte '\x7b') then cDvarBasic.contains c
  else if before[1]? = some (byte '\x7b') then c ≠ byte '\x7d'
  else c = byte '\x7d'

/-- The depth checks for a container that opens inside of others. -/
def cDvarVerifyDepth (containers : Bytes) : Bool :=
  let tuples := (containers.filter (· ≠ byte 'a')).length
  containers.length ≤ cDvarTypeDepthMax && tuples ≤ cDvarTypeDepthMax / 2 &&
    containers.length - tuples ≤ cDvarTypeDepthMax / 2

/-- `c_dvar_verify_type`: the length of the first complete type. The containers that are open are a list, the
innermost first; the source keeps two bitmaps and a depth. `before` is what was read, the last character first. -/
def cDvarVerifyType : Bytes → Bytes → Bytes → Option ℕ
  | [], _, _ => none
  | c :: rest, before, containers =>
    let finish (containers : Bytes) : Option ℕ :=
      match containers.dropWhile (· = byte 'a') with
      | [] => some (before.length + 1)
      | open' => cDvarVerifyType rest (c :: before) open'
    if cDvarTypeLengthMax ≤ before.length then none
    else if containers.head? = some (byte '\x7b') && !cDvarVerifyDict c before then none
    else if c = byte '\x7b' && containers.head? ≠ some (byte 'a') then none
    else if c = byte '\x7b' || c = byte '(' || c = byte 'a' then
      if cDvarVerifyDepth (c :: containers) then cDvarVerifyType rest (c :: before) (c :: containers) else none
    else if c = byte '\x7d' || c = byte ')' then
      if containers.head? ≠ some (if c = byte '\x7d' then byte '\x7b' else byte '(') then none
      else if before[0]? = some (byte '(') then none
      else finish containers.tail
    else if cDvarBasic.contains c || c = byte 'v' then finish containers
    else none

/-- `c_dvar_is_type`. -/
def cDvarIsType (string : Bytes) : Bool := cDvarVerifyType string [] [] == some string.length

/-- The loop of `c_dvar_is_signature`, with a bound on its rounds. -/
def cDvarIsSignatureFuel : ℕ → Bytes → Bool
  | 0, string => string.isEmpty
  | fuel + 1, string =>
    string.isEmpty || (cDvarVerifyType string [] []).elim false fun n => cDvarIsSignatureFuel fuel (string.drop n)

/-- `c_dvar_is_signature`. -/
def cDvarIsSignature (string : Bytes) : Bool := string.length ≤ 255 && cDvarIsSignatureFuel string.length string

/-- The length of the first type of a signature, as `c_dvar_type_new_from_signature` counts the brackets. -/
def cDvarTypeLength : Bytes → ℕ → ℕ
  | [], _ => 0
  | c :: rest, depth =>
    let depth :=
      if c = byte '(' || c = byte '\x7b' then depth + 1
      else if c = byte ')' || c = byte '\x7d' then depth - 1 else depth
    if c = byte 'a' || depth ≠ 0 then cDvarTypeLength rest depth + 1 else 1

/-- The complete types of a signature, with a bound on their number. -/
def cDvarTypesFuel : ℕ → Bytes → List Bytes
  | 0, _ => []
  | fuel + 1, signature =>
    if signature.isEmpty then []
    else signature.take (cDvarTypeLength signature 0) ::
      cDvarTypesFuel fuel (signature.drop (cDvarTypeLength signature 0))

/-- The complete types of a signature. -/
def cDvarTypes (signature : Bytes) : List Bytes := cDvarTypesFuel signature.length signature

/-- The alignment of a type, as a power of two. -/
def cDvarAlignment (c : UInt8) : ℕ :=
  if (lit "nq").contains c then 1
  else if (lit "biuhsoa").contains c then 2
  else if (lit "xtd(\x7b").contains c then 3
  else 0

/-- The size of a basic type without further checks. -/
def cDvarSize (c : UInt8) : ℕ :=
  if c = byte 'y' then 1 else if (lit "nq").contains c then 2 else if (lit "iuh").contains c then 4 else 8

/-! ## Reading -/

/-- `c_dvar_read_data`. -/
def cDvarReadData (alignment n : ℕ) : DvarReader Bytes := data 0 .outOfBounds .corruptData (2 ^ alignment) n

/-- `c_dvar_read_u8`. -/
def cDvarReadU8 : DvarReader UInt8 := do
  let d ← cDvarReadData 0 1
  pure (d.headD 0)

/-- `c_dvar_read_u32`. -/
def cDvarReadU32 (bigEndian : Bool) : DvarReader ℕ := do
  let d ← cDvarReadData 2 4
  pure (uint32OfBytes bigEndian d)

/-- The value check of the string types. -/
def cDvarIsValue (c : UInt8) (str : Bytes) : Bool :=
  if c = byte 's' then cDvarIsString str else if c = byte 'o' then cDvarIsPath str else cDvarIsSignature str

/-- The length in front of a string; that of a signature is one byte. -/
def cDvarReadLength (bigEndian : Bool) (c : UInt8) : DvarReader ℕ :=
  if c = byte 'g' then do
    let u8 ← cDvarReadU8
    pure u8.toNat
  else cDvarReadU32 bigEndian

/-- `c_dvar_read` of a string type. -/
def cDvarReadString (bigEndian : Bool) (c : UInt8) : DvarReader Bytes := do
  let n ← cDvarReadLength bigEndian c
  let str ← cDvarReadData 0 n
  let terminator ← cDvarReadU8
  check .corruptData (terminator = 0 && cDvarIsValue c str)
  pure str

/-- The start of a variant: its type. -/
def cDvarReadType : DvarReader Bytes := do
  let n ← cDvarReadU8
  let str ← cDvarReadData 0 n.toNat
  let terminator ← cDvarReadU8
  check .corruptData (terminator = 0 && cDvarIsType str)
  pure str

/-- The start of a variant that must have a certain type. -/
def cDvarReadVariant (type : Bytes) : DvarReader Unit := do
  let str ← cDvarReadType
  check .typeMismatch (str = type)

/-- `c_dvar_skip` of a basic type. -/
def cDvarSkipBasic (bigEndian : Bool) (c : UInt8) : DvarReader Unit :=
  if c = byte 'b' then do
    let u32 ← cDvarReadU32 bigEndian
    check .corruptData (u32 = 0 || u32 = 1)
  else if (lit "sog").contains c then do
    let _ ← cDvarReadString bigEndian c
    pure ()
  else if (lit "ynqiuhxtd").contains c then do
    let _ ← cDvarReadData (cDvarAlignment c) (cDvarSize c)
    pure ()
  else fun _ => .error .notRecoverable

/-- The jump of `c_dvar_ff` over the members of a fixed size. -/
def cDvarJump (size : ℕ) : DvarReader Unit := fun c =>
  let n := c.rest.length - c.rest.length % size
  .ok ((), ⟨c.offset + n, c.rest.drop n⟩)

/-- The members of an array, to its end. -/
def cDvarSkipMembers (skip : Bytes → DvarReader Unit) (type : Bytes) : DvarReader Unit :=
  if (lit "ynqiuhxtd").contains (type.headD 0) then cDvarJump (cDvarSize (type.headD 0))
  else whileMore .notRecoverable (fun _ => skip type) ()

/-- `c_dvar_ff`: one complete type is skipped and checked. The levels are those that may still be entered. -/
def cDvarSkip (bigEndian : Bool) : ℕ → Bytes → DvarReader Unit
  | 0, type =>
    if (lit "av(\x7b").contains (type.headD 0) then fun _ => .error .depthOverflow
    else cDvarSkipBasic bigEndian (type.headD 0)
  | levels + 1, type =>
    if type.headD 0 = byte 'a' then do
      let n ← cDvarReadU32 bigEndian
      let _ ← cDvarReadData (cDvarAlignment (type.tail.headD 0)) 0
      within .outOfBounds .corruptData n (cDvarSkipMembers (cDvarSkip bigEndian levels) type.tail)
    else if type.headD 0 = byte 'v' then do
      let inner ← cDvarReadType
      cDvarSkip bigEndian levels inner
    else if type.headD 0 = byte '(' || type.headD 0 = byte '\x7b' then do
      let _ ← cDvarReadData 3 0
      (cDvarTypes type.tail.dropLast).forM (cDvarSkip bigEndian levels)
    else cDvarSkipBasic bigEndian (type.headD 0)

/-! ## Locality -/

theorem local_cDvarReadData {alignment : ℕ} (h : alignment ≤ 3) (n : ℕ) : Local 8 (cDvarReadData alignment n) :=
  Local.data (Nat.two_pow_pos _) (Nat.pow_dvd_pow 2 h) n

theorem local_cDvarReadU8 : Local 8 cDvarReadU8 := (local_cDvarReadData (by decide) 1).bind fun _ => .pure _

theorem local_cDvarReadU32 (bigEndian : Bool) : Local 8 (cDvarReadU32 bigEndian) :=
  (local_cDvarReadData (by decide) 4).bind fun _ => .pure _

theorem local_cDvarReadString (bigEndian : Bool) (c : UInt8) : Local 8 (cDvarReadString bigEndian c) := by
  have hlength : Local 8 (cDvarReadLength bigEndian c) :=
    .ite (local_cDvarReadU8.bind fun _ => .pure _) (local_cDvarReadU32 bigEndian)
  exact hlength.bind fun n => (local_cDvarReadData (by decide) n).bind fun _ =>
    local_cDvarReadU8.bind fun _ => (Local.check _ _).bind fun _ => .pure _

theorem local_cDvarReadType : Local 8 cDvarReadType :=
  local_cDvarReadU8.bind fun n => (local_cDvarReadData (by decide) n.toNat).bind fun _ =>
    local_cDvarReadU8.bind fun _ => (Local.check _ _).bind fun _ => .pure _

theorem local_cDvarReadVariant (type : Bytes) : Local 8 (cDvarReadVariant type) :=
  local_cDvarReadType.bind fun _ => .check _ _

theorem cDvarAlignment_le (c : UInt8) : cDvarAlignment c ≤ 3 := by
  rw [cDvarAlignment]
  split
  · decide
  · split
    · decide
    · split <;> decide

theorem local_cDvarSkipBasic (bigEndian : Bool) (c : UInt8) : Local 8 (cDvarSkipBasic bigEndian c) := by
  rw [cDvarSkipBasic]
  refine .ite ?_ (.ite ?_ (.ite ?_ (.fail _)))
  · exact (local_cDvarReadU32 bigEndian).bind fun _ => .check _ _
  · exact (local_cDvarReadString bigEndian c).bind fun _ => .pure _
  · exact (local_cDvarReadData (cDvarAlignment_le c) _).bind fun _ => .pure _

theorem shifts_cDvarJump (size : ℕ) : Shifts 8 (cDvarJump size) := by
  intro c a c' h
  simp only [cDvarJump, Except.ok.injEq, Prod.mk.injEq] at h
  obtain ⟨-, rfl⟩ := h
  refine ⟨Nat.le_add_right _ _, fun offset _ => ?_⟩
  simp only [cDvarJump, Nat.add_sub_cancel_left]

/-- The members of an array do not depend on where it stands if one member does not. -/
theorem shifts_cDvarSkipMembers {skip : Bytes → DvarReader Unit} (h : ∀ type, Local 8 (skip type)) (type : Bytes) :
    Shifts 8 (cDvarSkipMembers skip type) := by
  rw [cDvarSkipMembers]
  split
  · exact shifts_cDvarJump _
  · exact shifts_whileMore (fun _ => h type) ()

/-- Data of any type are read the same at every position of the same alignment. -/
theorem local_cDvarSkip (bigEndian : Bool) (levels : ℕ) (type : Bytes) : Local 8 (cDvarSkip bigEndian levels type) := by
  induction levels generalizing type with
  | zero =>
    rw [cDvarSkip]
    exact .ite (.fail _) (local_cDvarSkipBasic bigEndian _)
  | succ levels ih =>
    rw [cDvarSkip]
    refine .ite ?_ (.ite ?_ (.ite ?_ (local_cDvarSkipBasic bigEndian _)))
    · exact (local_cDvarReadU32 bigEndian).bind fun n => (local_cDvarReadData (cDvarAlignment_le _) 0).bind fun _ =>
        (shifts_cDvarSkipMembers ih _).within n
    · exact local_cDvarReadType.bind fun inner => ih inner
    · exact (local_cDvarReadData (by decide) 0).bind fun _ => Local.forM ih _

example : cDvarIsType (lit "a\x7bsa(iv)\x7d") = true := rfl
example : cDvarIsType (lit "a\x7bvs\x7d") = false := rfl
example : cDvarTypes (lit "sa(iu)av") = [lit "s", lit "a(iu)", lit "av"] := rfl

end DbusBroker
