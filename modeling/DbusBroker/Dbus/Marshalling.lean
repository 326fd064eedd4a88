import DbusBroker.Dbus.MessageFields
import DbusBroker.Lib.ReaderLanguage

/-!
# Marshalled data

What data of a type look like on the wire: a value stands behind the zeros that align it, a string
behind its length and in front of a zero, a variant behind its type. The members of an array and of
a structure follow one another, each with its own alignment.

The reader takes an array as a buffer of its own, and where its members have a fixed size it jumps
to the end without a look at them. It accepts the marshalled data of the type and nothing else, and
so a message has a valid body if and only if it consists of the arguments that its signature lists.
-/

namespace DbusBroker

namespace Wire

open AlignedReader

/-! ## The format -/

/-- The zeros in front of data with this alignment, a power of two. -/
def padding (alignment o : ℕ) : Bytes := List.replicate (gap (2 ^ alignment) o) 0

/-- A string at a position, with its length in front and a zero behind. -/
inductive MarshalledString (bigEndian : Bool) (c : UInt8) (o : ℕ) : Bytes → Bytes → Prop
  | string {size str : Bytes} (hc : c ≠ byte 'g') (hsize : size.length = 4)
      (hlen : uint32OfBytes bigEndian size = str.length) (hvalue : cDvarIsValue c str = true) :
      MarshalledString bigEndian c o (padding 2 o ++ size ++ (str ++ [0])) str
  | signature {size : UInt8} {str : Bytes} (hc : c = byte 'g') (hlen : size.toNat = str.length)
      (hvalue : cDvarIsValue c str = true) : MarshalledString bigEndian c o ([size] ++ (str ++ [0])) str

/-- A value of a basic type at a position. -/
inductive MarshalledBasic (bigEndian : Bool) (c : UInt8) (o : ℕ) : Bytes → Prop
  | fixed {d : Bytes} (hc : c ∈ lit "ynqiuhxtd") (hd : d.length = cDvarSize c) :
      MarshalledBasic bigEndian c o (padding (cDvarAlignment c) o ++ d)
  | boolean {d : Bytes} (hc : c = byte 'b') (hd : d.length = 4)
      (hvalue : uint32OfBytes bigEndian d = 0 ∨ uint32OfBytes bigEndian d = 1) :
      MarshalledBasic bigEndian c o (padding 2 o ++ d)
  | string {b str : Bytes} (hc : c ∈ lit "sog") (hstr : MarshalledString bigEndian c o b str) :
      MarshalledBasic bigEndian c o b

/-- What stands in front of the members of an array. The first member is aligned even where there is none. -/
def arrayHead (size : Bytes) (alignment o : ℕ) : Bytes :=
  padding 2 o ++ size ++ padding alignment (o + (padding 2 o ++ size).length)

/-- A container at a position, with what its members look like as a parameter. -/
inductive MarshalledContainer (bigEndian : Bool) (member : Bytes → ℕ → Bytes → Prop) (type : Bytes) (o : ℕ) :
    Bytes → Prop
  | array {m : ℕ} {size b : Bytes} (hc : type.headD 0 = byte 'a') (hsize : size.length = 4)
      (hlen : uint32OfBytes bigEndian size = b.length)
      (hmembers : Consecutive member (List.replicate m type.tail)
        (o + (arrayHead size (cDvarAlignment (type.tail.headD 0)) o).length) b) :
      MarshalledContainer bigEndian member type o (arrayHead size (cDvarAlignment (type.tail.headD 0)) o ++ b)
  | variant {size : UInt8} {inner b : Bytes} (hc : type.headD 0 = byte 'v') (hlen : size.toNat = inner.length)
      (htype : cDvarIsType inner = true) (hvalue : member inner (o + ([size] ++ (inner ++ [0])).length) b) :
      MarshalledContainer bigEndian member type o ([size] ++ (inner ++ [0]) ++ b)
  | tuple {b : Bytes} (hc : type.headD 0 = byte '(' ∨ type.headD 0 = byte '\x7b')
      (hmembers : Consecutive member (cDvarTypes type.tail.dropLast) (o + (padding 3 o).length) b) :
      MarshalledContainer bigEndian member type o (padding 3 o ++ b)

/-- Data of a type at a position, with containers in one another on so many levels. -/
def Marshalled (bigEndian : Bool) : ℕ → Bytes → ℕ → Bytes → Prop
  | 0, type, o, b => MarshalledBasic bigEndian (type.headD 0) o b
  | levels + 1, type, o, b =>
    MarshalledBasic bigEndian (type.headD 0) o b ∨
      MarshalledContainer bigEndian (Marshalled bigEndian levels) type o b

/-! ## Strings and basic types -/

theorem padding_zero (o : ℕ) : padding 0 o = [] := by
  rw [padding, Nat.pow_zero, gap_of_dvd (Nat.one_dvd o) Nat.one_pos, List.replicate_zero]

/-- Behind the zeros the position is aligned. -/
theorem dvd_add_length_padding (alignment o : ℕ) : 2 ^ alignment ∣ o + (padding alignment o).length := by
  rw [padding, List.length_replicate, add_gap (Nat.two_pow_pos alignment)]
  exact dvd_align _ o

theorem accepts_cDvarReadData (alignment n : ℕ) :
    Accepts (cDvarReadData alignment n) fun o used d => d.length = n ∧ used = padding alignment o ++ d :=
  Accepts.data _ _ _ _ _

theorem accepts_cDvarReadU8 : Accepts cDvarReadU8 fun _ used b => used = [b] := by
  intro c b c'
  rw [cDvarReadU8_eq_ok_iff]
  constructor
  · rintro ⟨hrest, hoffset⟩
    exact ⟨[b], hrest, hoffset, rfl⟩
  · rintro ⟨used, hrest, hoffset, rfl⟩
    exact ⟨hrest, hoffset⟩

theorem accepts_cDvarReadU32 (bigEndian : Bool) :
    Accepts (cDvarReadU32 bigEndian) fun o used n =>
      ∃ d : Bytes, d.length = 4 ∧ used = padding 2 o ++ d ∧ n = uint32OfBytes bigEndian d := by
  refine ((accepts_cDvarReadData 2 4).bind fun d => Accepts.pure (uint32OfBytes bigEndian d)).congr fun o used n => ?_
  constructor
  · rintro ⟨u, v, d, rfl, ⟨hd, rfl⟩, rfl, rfl⟩
    exact ⟨d, hd, List.append_nil _, rfl⟩
  · rintro ⟨d, hd, rfl, rfl⟩
    exact ⟨_, [], d, (List.append_nil _).symm, ⟨hd, rfl⟩, rfl, rfl⟩

/-- The reader of a string or a type behind its length. -/
theorem accepts_terminated (n : ℕ) (valid : Bytes → Bool) :
    Accepts (do
      let str ← cDvarReadData 0 n
      let terminator ← cDvarReadU8
      check .corruptData (terminator = 0 && valid str)
      pure str : DvarReader Bytes) fun _ used str => used = str ++ [0] ∧ str.length = n ∧ valid str = true := by
  refine ((accepts_cDvarReadData 0 n).bind fun str => accepts_cDvarReadU8.bind fun terminator =>
    (Accepts.check _ _).bind fun _ => Accepts.pure str).congr fun o used str => ?_
  constructor
  · rintro ⟨u, v, d, rfl, ⟨hd, rfl⟩, _, _, terminator, rfl, rfl, _, _, _, rfl, ⟨rfl, hcheck⟩, rfl, rfl⟩
    rw [Bool.and_eq_true, decide_eq_true_eq] at hcheck
    obtain ⟨rfl, hvalid⟩ := hcheck
    rw [padding_zero]
    exact ⟨rfl, hd, hvalid⟩
  · rintro ⟨rfl, hlen, hvalid⟩
    refine ⟨str, [0], str, rfl, ⟨hlen, by rw [padding_zero]; rfl⟩, [0], [], 0, rfl, rfl, [], [], (), rfl, ⟨rfl, ?_⟩,
      rfl, rfl⟩
    rw [hvalid]
    rfl

theorem accepts_cDvarReadType :
    Accepts cDvarReadType fun _ used type =>
      ∃ size : UInt8, used = [size] ++ (type ++ [0]) ∧ size.toNat = type.length ∧ cDvarIsType type = true := by
  refine (accepts_cDvarReadU8.bind fun n => accepts_terminated n.toNat cDvarIsType).congr fun o used type => ?_
  constructor
  · rintro ⟨_, _, size, rfl, rfl, rfl, hlen, htype⟩
    exact ⟨size, rfl, hlen.symm, htype⟩
  · rintro ⟨size, rfl, hlen, htype⟩
    exact ⟨_, _, size, rfl, rfl, rfl, hlen.symm, htype⟩

theorem accepts_cDvarReadString (bigEndian : Bool) (c : UInt8) :
    Accepts (cDvarReadString bigEndian c) (MarshalledString bigEndian c) := by
  by_cases hc : c = byte 'g'
  · have hlength : cDvarReadLength bigEndian c = cDvarReadU8 >>= fun u8 => pure u8.toNat := if_pos hc
    rw [cDvarReadString, hlength]
    refine ((accepts_cDvarReadU8.bind fun u8 => Accepts.pure u8.toNat).bind fun n =>
      accepts_terminated n (cDvarIsValue c)).congr fun o used str => ?_
    constructor
    · rintro ⟨_, _, _, rfl, ⟨_, _, size, rfl, rfl, rfl, rfl⟩, rfl, hlen, hvalue⟩
      exact .signature hc hlen.symm hvalue
    · intro h
      cases h with
      | string hne => exact absurd hc hne
      | @signature size _ _ hlen hvalue =>
        exact ⟨_, _, _, rfl, ⟨_, _, size, (List.append_nil _).symm, rfl, rfl, rfl⟩, rfl, hlen.symm, hvalue⟩
  · have hlength : cDvarReadLength bigEndian c = cDvarReadU32 bigEndian := if_neg hc
    rw [cDvarReadString, hlength]
    refine ((accepts_cDvarReadU32 bigEndian).bind fun n =>
      accepts_terminated n (cDvarIsValue c)).congr fun o used str => ?_
    constructor
    · rintro ⟨_, _, _, rfl, ⟨size, hsize, rfl, rfl⟩, rfl, hlen, hvalue⟩
      exact .string hc hsize hlen.symm hvalue
    · intro h
      cases h with
      | @string size _ _ hsize hlen hvalue => exact ⟨_, _, _, rfl, ⟨size, hsize, rfl, rfl⟩, rfl, hlen.symm, hvalue⟩
      | signature hg => exact absurd hg hc

/-- The reader of a basic type accepts its values. -/
theorem accepts_cDvarSkipBasic (bigEndian : Bool) (c : UInt8) :
    Accepts (cDvarSkipBasic bigEndian c) fun o used _ => MarshalledBasic bigEndian c o used := by
  have hstring : ∀ c ∈ lit "ynqiuhxtd", c ∉ lit "sog" ∧ c ≠ byte 'b' := by simp [lit, byte]
  have hboolean : byte 'b' ∉ lit "sog" := by decide
  rw [cDvarSkipBasic]
  refine .ite (fun hb => ?_) fun hb => .ite (fun hsog => ?_) fun hsog => .ite (fun hfixed => ?_) fun hfixed => ?_
  · refine ((accepts_cDvarReadU32 bigEndian).bind fun n => Accepts.check _ _).congr fun o used _ => ?_
    constructor
    · rintro ⟨_, _, n, rfl, ⟨d, hd, rfl, rfl⟩, rfl, hvalue⟩
      rw [List.append_nil]
      exact .boolean hb hd (by simpa using hvalue)
    · intro h
      cases h with
      | fixed hc => exact absurd hb (hstring c hc).2
      | @boolean d _ hd hvalue =>
        exact ⟨_, [], _, (List.append_nil _).symm, ⟨d, hd, rfl, rfl⟩, rfl, by simpa using hvalue⟩
      | string hc => exact absurd (hb ▸ hc) hboolean
  · have hmem : c ∈ lit "sog" := List.contains_iff_mem.mp hsog
    refine ((accepts_cDvarReadString bigEndian c).bind fun _ => Accepts.pure ()).congr fun o used _ => ?_
    constructor
    · rintro ⟨u, _, str, rfl, hstr, rfl, _⟩
      rw [List.append_nil]
      exact .string hmem hstr
    · intro h
      cases h with
      | fixed hc => exact absurd hmem (hstring c hc).1
      | boolean hc => exact absurd hc hb
      | @string _ str _ hstr => exact ⟨_, [], str, (List.append_nil _).symm, hstr, rfl, rfl⟩
  · have hmem : c ∈ lit "ynqiuhxtd" := List.contains_iff_mem.mp hfixed
    refine ((accepts_cDvarReadData (cDvarAlignment c) (cDvarSize c)).bind fun _ => Accepts.pure ()).congr
      fun o used _ => ?_
    constructor
    · rintro ⟨u, _, d, rfl, ⟨hd, rfl⟩, rfl, _⟩
      rw [List.append_nil]
      exact .fixed hmem hd
    · intro h
      cases h with
      | @fixed d _ hd => exact ⟨_, [], d, (List.append_nil _).symm, ⟨hd, rfl⟩, rfl, rfl⟩
      | boolean hc => exact absurd hc hb
      | string hc => exact absurd (List.contains_iff_mem.mpr hc) hsog
  · refine (Accepts.fail _).congr fun o used _ => ⟨False.elim, fun h => ?_⟩
    cases h with
    | fixed hc => exact hfixed (List.contains_iff_mem.mpr hc)
    | boolean hc => exact hb hc
    | string hc => exact hsog (List.contains_iff_mem.mpr hc)

/-! ## Containers -/

/-- No basic type opens a container. -/
theorem MarshalledBasic.not_container {bigEndian : Bool} {c : UInt8} {o : ℕ} {b : Bytes}
    (h : MarshalledBasic bigEndian c o b) : c ∉ lit "av(\x7b" := by
  have hall : ∀ c ∈ lit "bynqiuhxtdsog", c ∉ lit "av(\x7b" := by simp [lit, byte]
  refine hall c ?_
  cases h with
  | fixed hc => exact (by simp [lit, byte] : ∀ c ∈ lit "ynqiuhxtd", c ∈ lit "bynqiuhxtdsog") c hc
  | boolean hc => exact hc ▸ (by decide : byte 'b' ∈ lit "bynqiuhxtdsog")
  | string hc => exact (by simp [lit, byte] : ∀ c ∈ lit "sog", c ∈ lit "bynqiuhxtdsog") c hc

theorem MarshalledContainer.mem {bigEndian : Bool} {member : Bytes → ℕ → Bytes → Prop} {type : Bytes} {o : ℕ}
    {b : Bytes} (h : MarshalledContainer bigEndian member type o b) : type.headD 0 ∈ lit "av(\x7b" := by
  have hall : byte 'a' ∈ lit "av(\x7b" ∧ byte 'v' ∈ lit "av(\x7b" ∧ byte '(' ∈ lit "av(\x7b" ∧
      byte '\x7b' ∈ lit "av(\x7b" := by decide
  obtain ⟨ha, hv, htuple, hdict⟩ := hall
  cases h with
  | array hc => exact hc ▸ ha
  | variant hc => exact hc ▸ hv
  | tuple hc => exact hc.elim (fun hc => hc ▸ htuple) fun hc => hc ▸ hdict

/-- Data of a fixed size are the same on every level. -/
theorem marshalled_fixed_iff {bigEndian : Bool} {levels : ℕ} {type : Bytes} (hc : type.headD 0 ∈ lit "ynqiuhxtd")
    (o : ℕ) (b : Bytes) :
    Marshalled bigEndian levels type o b ↔
      ∃ d : Bytes, d.length = cDvarSize (type.headD 0) ∧ b = padding (cDvarAlignment (type.headD 0)) o ++ d := by
  have hother : ∀ c ∈ lit "ynqiuhxtd", c ∉ lit "sog" ∧ c ≠ byte 'b' ∧ c ∉ lit "av(\x7b" := by simp [lit, byte]
  obtain ⟨hstring, hboolean, hcontainer⟩ := hother _ hc
  have hbasic : MarshalledBasic bigEndian (type.headD 0) o b ↔
      ∃ d : Bytes, d.length = cDvarSize (type.headD 0) ∧ b = padding (cDvarAlignment (type.headD 0)) o ++ d := by
    constructor
    · intro h
      cases h with
      | fixed _ hd => exact ⟨_, hd, rfl⟩
      | boolean hb => exact absurd hb hboolean
      | string hs => exact absurd hs hstring
    · rintro ⟨d, hd, rfl⟩
      exact .fixed hc hd
  cases levels with
  | zero => exact hbasic
  | succ levels => exact (or_iff_left fun h => hcontainer h.mem).trans hbasic

/-- A string or an object path is the same on every level. -/
theorem marshalled_string_iff {bigEndian : Bool} {levels : ℕ} {type : Bytes} (hc : type.headD 0 ∈ lit "so") (o : ℕ)
    (b : Bytes) :
    Marshalled bigEndian levels type o b ↔ ∃ str, MarshalledString bigEndian (type.headD 0) o b str := by
  have hother : ∀ c ∈ lit "so", c ∈ lit "sog" ∧ c ∉ lit "ynqiuhxtd" ∧ c ≠ byte 'b' ∧ c ∉ lit "av(\x7b" := by
    simp [lit, byte]
  obtain ⟨hsog, hfixed, hboolean, hcontainer⟩ := hother _ hc
  have hbasic : MarshalledBasic bigEndian (type.headD 0) o b ↔
      ∃ str, MarshalledString bigEndian (type.headD 0) o b str := by
    constructor
    · intro h
      cases h with
      | fixed hd => exact absurd hd hfixed
      | boolean hb => exact absurd hb hboolean
      | string _ hstr => exact ⟨_, hstr⟩
    · rintro ⟨str, hstr⟩
      exact .string hsog hstr
  cases levels with
  | zero => exact hbasic
  | succ levels => exact (or_iff_left fun h => hcontainer h.mem).trans hbasic

/-- The jump comes to the end of a buffer of whole members. -/
theorem acceptsAll_cDvarJump (size : ℕ) : AcceptsAll (cDvarJump size) fun _ b _ => size ∣ b.length := by
  intro o b _
  have hle := Nat.mod_le b.length size
  constructor
  · rintro ⟨c', hjump, hend⟩
    simp only [cDvarJump, Except.ok.injEq, Prod.mk.injEq] at hjump
    obtain ⟨-, rfl⟩ := hjump
    have hlen := List.drop_eq_nil_iff.mp hend
    exact Nat.dvd_of_mod_eq_zero (by omega)
  · intro hdvd
    refine ⟨_, rfl, List.drop_eq_nil_iff.mpr ?_⟩
    rw [Nat.mod_eq_zero_of_dvd hdvd]
    exact le_rfl

/-- The members of an array, as the reader sees them: of a fixed size, only their bytes count. -/
def ArrayMembers (bigEndian : Bool) (levels : ℕ) (element : Bytes) (o : ℕ) (b : Bytes) : Prop :=
  if (lit "ynqiuhxtd").contains (element.headD 0) then cDvarSize (element.headD 0) ∣ b.length
  else ∃ m, Consecutive (Marshalled bigEndian levels) (List.replicate m element) o b

theorem acceptsAll_cDvarSkipMembers {bigEndian : Bool} {levels : ℕ}
    (h : ∀ type, Accepts (cDvarSkip bigEndian levels type) fun o used _ => Marshalled bigEndian levels type o used)
    (element : Bytes) :
    AcceptsAll (cDvarSkipMembers (cDvarSkip bigEndian levels) element) fun o b _ =>
      ArrayMembers bigEndian levels element o b := by
  by_cases hfixed : (lit "ynqiuhxtd").contains (element.headD 0) = true
  · rw [cDvarSkipMembers, if_pos hfixed]
    exact (acceptsAll_cDvarJump _).congr fun o b _ => by rw [ArrayMembers, if_pos hfixed]
  · rw [cDvarSkipMembers, if_neg hfixed]
    exact (acceptsAll_whileMore (h element)).congr fun o b _ => by rw [ArrayMembers, if_neg hfixed]

/-- From an aligned position the jump over members of a fixed size goes over one member after the other. -/
theorem arrayMembers_iff {bigEndian : Bool} {levels o : ℕ} {element b : Bytes}
    (ho : 2 ^ cDvarAlignment (element.headD 0) ∣ o) :
    ArrayMembers bigEndian levels element o b ↔
      ∃ m, Consecutive (Marshalled bigEndian levels) (List.replicate m element) o b := by
  by_cases hfixed : (lit "ynqiuhxtd").contains (element.headD 0) = true
  · have hmem : element.headD 0 ∈ lit "ynqiuhxtd" := List.contains_iff_mem.mp hfixed
    have hsize : ∀ c ∈ lit "ynqiuhxtd", 2 ^ cDvarAlignment c ∣ cDvarSize c := by
      simp [lit, byte, cDvarAlignment, cDvarSize]
    have hmembers (m : ℕ) : Consecutive (Marshalled bigEndian levels) (List.replicate m element) o b ↔
        b.length = m * cDvarSize (element.headD 0) := by
      rw [← consecutive_data_iff (x := element) (0 : UInt8) (Nat.two_pow_pos _) (hsize _ hmem) ho]
      refine Consecutive.congr (fun type htype o b => ?_) o b
      rw [List.eq_of_mem_replicate htype]
      exact marshalled_fixed_iff hmem o b
    rw [ArrayMembers, if_pos hfixed]
    simp only [hmembers]
    exact exists_congr fun m => by rw [Nat.mul_comm]
  · rw [ArrayMembers, if_neg hfixed]

/-- The reader accepts the marshalled data of a type and nothing else. -/
theorem accepts_cDvarSkip (bigEndian : Bool) (levels : ℕ) (type : Bytes) :
    Accepts (cDvarSkip bigEndian levels type) fun o used _ => Marshalled bigEndian levels type o used := by
  induction levels generalizing type with
  | zero =>
    rw [cDvarSkip]
    refine .ite (fun hc => ?_) fun _ => accepts_cDvarSkipBasic bigEndian _
    exact (Accepts.fail _).congr fun o used _ =>
      ⟨False.elim, fun h => h.not_container (List.contains_iff_mem.mp hc)⟩
  | succ levels ih =>
    have hdistinct : byte 'a' ≠ byte 'v' ∧ byte 'a' ≠ byte '(' ∧ byte 'a' ≠ byte '\x7b' ∧ byte 'v' ≠ byte '(' ∧
        byte 'v' ≠ byte '\x7b' := by decide
    obtain ⟨hav, hap, hab, hvp, hvb⟩ := hdistinct
    -- In each of the first three branches the type is a container, so its data are no value of a basic type.
    have hcontainer (hc : type.headD 0 ∈ lit "av(\x7b") (o : ℕ) (b : Bytes) :
        Marshalled bigEndian (levels + 1) type o b ↔
          MarshalledContainer bigEndian (Marshalled bigEndian levels) type o b :=
      or_iff_right fun h => h.not_container hc
    rw [cDvarSkip]
    refine .ite (fun ha => ?_) fun ha => .ite (fun hv => ?_) fun hv => .ite (fun ht => ?_) fun ht => ?_
    · refine ((accepts_cDvarReadU32 bigEndian).bind fun n =>
        (accepts_cDvarReadData (cDvarAlignment (type.tail.headD 0)) 0).bind fun _ =>
          (acceptsAll_cDvarSkipMembers ih type.tail).within n).congr fun o used _ => ?_
      rw [hcontainer (by rw [ha]; decide)]
      constructor
      · rintro ⟨_, _, _, rfl, ⟨size, hsize, rfl, rfl⟩, _, b, d, rfl, ⟨hd, rfl⟩, hlen, hmembers⟩
        obtain rfl := List.length_eq_zero_iff.mp hd
        rw [List.append_nil] at hmembers ⊢
        obtain ⟨m, hm⟩ := (arrayMembers_iff (dvd_add_length_padding _ _)).mp hmembers
        rw [← List.append_assoc]
        refine .array (m := m) ha hsize hlen.symm ?_
        rw [arrayHead, List.length_append, ← Nat.add_assoc]
        exact hm
      · intro h
        cases h with
        | @array m size b _ hsize hlen hmembers =>
          rw [arrayHead, List.length_append, ← Nat.add_assoc] at hmembers
          refine ⟨_, _, _, ?_, ⟨size, hsize, rfl, rfl⟩, _, b, [], rfl, ⟨rfl, rfl⟩, hlen.symm, ?_⟩
          · rw [arrayHead, List.append_nil, List.append_assoc]
          · rw [List.append_nil]
            exact (arrayMembers_iff (dvd_add_length_padding _ _)).mpr ⟨m, hmembers⟩
        | variant hc => exact absurd (ha.symm.trans hc) hav
        | tuple hc => exact hc.elim (fun hc => absurd (ha.symm.trans hc) hap) fun hc => absurd (ha.symm.trans hc) hab
    · refine (accepts_cDvarReadType.bind fun inner => ih inner).congr fun o used _ => ?_
      rw [hcontainer (by rw [hv]; decide)]
      constructor
      · rintro ⟨_, b, inner, rfl, ⟨size, rfl, hlen, htype⟩, hvalue⟩
        exact .variant hv hlen htype hvalue
      · intro h
        cases h with
        | array hc => exact absurd hc ha
        | @variant size inner b _ hlen htype hvalue => exact ⟨_, b, inner, rfl, ⟨size, rfl, hlen, htype⟩, hvalue⟩
        | tuple hc => exact hc.elim (fun hc => absurd (hv.symm.trans hc) hvp) fun hc => absurd (hv.symm.trans hc) hvb
    · have htuple : type.headD 0 = byte '(' ∨ type.headD 0 = byte '\x7b' := by simpa using ht
      refine ((accepts_cDvarReadData 3 0).bind fun _ =>
        Accepts.forM ih (cDvarTypes type.tail.dropLast)).congr fun o used _ => ?_
      rw [hcontainer (by rcases htuple with hc | hc <;> rw [hc] <;> decide)]
      constructor
      · rintro ⟨_, b, d, rfl, ⟨hd, rfl⟩, hmembers⟩
        obtain rfl := List.length_eq_zero_iff.mp hd
        rw [List.append_nil] at hmembers ⊢
        exact .tuple htuple hmembers
      · intro h
        cases h with
        | array hc => exact absurd hc ha
        | variant hc => exact absurd hc hv
        | @tuple b _ hmembers =>
          refine ⟨padding 3 o, b, [], rfl, ⟨rfl, (List.append_nil _).symm⟩, hmembers⟩
    · refine (accepts_cDvarSkipBasic bigEndian (type.headD 0)).congr fun o used _ => (or_iff_left fun h => ?_).symm
      cases h with
      | array hc => exact ha hc
      | variant hc => exact hv hc
      | tuple hc => exact ht (by simpa using hc)

/-! ## The body of a message -/

/-- An argument of a message is read where data of its type stand, whether it is kept or not. -/
theorem exists_messageReadArg_iff {bigEndian : Bool} {i : ℕ} {type : Bytes} {args : List MessageArg}
    {c c' : Cursor UInt8} :
    (∃ args', messageReadArg bigEndian i type args c = .ok (args', c')) ↔
      ∃ used, c.rest = used ++ c'.rest ∧ c'.offset = c.offset + used.length ∧
        Marshalled bigEndian (cDvarTypeDepthMax - 1) type c.offset used := by
  rw [messageReadArg]
  by_cases hkept : ((lit "so").contains (type.headD 0) && decide (i < 64)) = true
  · have hso : type.headD 0 ∈ lit "so" := List.contains_iff_mem.mp (Bool.and_eq_true_iff.mp hkept).1
    have hstring (o : ℕ) (b : Bytes) : Marshalled bigEndian (cDvarTypeDepthMax - 1) type o b ↔
        ∃ value, MarshalledString bigEndian (type.headD 0) o b value := marshalled_string_iff hso o b
    rw [if_pos hkept]
    simp only [hstring]
    constructor
    · rintro ⟨args', h⟩
      obtain ⟨value, c₁, hvalue, hpure⟩ := bind_eq_ok_iff.mp h
      obtain ⟨-, rfl⟩ := pure_eq_ok_iff.mp hpure
      obtain ⟨used, hrest, hoffset, hstr⟩ := (accepts_cDvarReadString _ _ _ _ _).mp hvalue
      exact ⟨used, hrest, hoffset, value, hstr⟩
    · rintro ⟨used, hrest, hoffset, value, hstr⟩
      have hvalue := (accepts_cDvarReadString bigEndian (type.headD 0) c value c').mpr ⟨used, hrest, hoffset, hstr⟩
      exact ⟨_, by rw [bind_of_ok hvalue]; rfl⟩
  · rw [if_neg hkept]
    constructor
    · rintro ⟨args', h⟩
      obtain ⟨_, c₁, hskip, hpure⟩ := bind_eq_ok_iff.mp h
      obtain ⟨-, rfl⟩ := pure_eq_ok_iff.mp hpure
      exact (accepts_cDvarSkip _ _ _ _ _ _).mp hskip
    · intro h
      have hskip := (accepts_cDvarSkip bigEndian _ type c () c').mpr h
      exact ⟨args, by rw [bind_of_ok hskip]; rfl⟩

/-- The arguments are read one behind the other. -/
theorem exists_messageReadArgs_iff {bigEndian : Bool} {types : List Bytes} {i : ℕ} {args : List MessageArg}
    {c c' : Cursor UInt8} :
    (∃ args', messageReadArgs bigEndian i types args c = .ok (args', c')) ↔
      ∃ used, c.rest = used ++ c'.rest ∧ c'.offset = c.offset + used.length ∧
        Consecutive (Marshalled bigEndian (cDvarTypeDepthMax - 1)) types c.offset used := by
  induction types generalizing i args c with
  | nil =>
    have hpure := Accepts.pure (ε := DvarError) (β := UInt8) args c args c'
    constructor
    · rintro ⟨args', h⟩
      obtain ⟨rfl, rfl⟩ := pure_eq_ok_iff.mp h
      exact ⟨[], rfl, rfl, rfl⟩
    · rintro ⟨used, hrest, hoffset, hempty⟩
      exact ⟨args, hpure.mpr ⟨used, hrest, hoffset, hempty, rfl⟩⟩
  | cons type types ih =>
    constructor
    · rintro ⟨args', h⟩
      obtain ⟨args₁, c₁, harg, hargs⟩ := bind_eq_ok_iff.mp h
      obtain ⟨u, hu, hou, harg'⟩ := exists_messageReadArg_iff.mp ⟨args₁, harg⟩
      obtain ⟨v, hv, hov, hargs'⟩ := ih.mp ⟨args', hargs⟩
      refine ⟨u ++ v, ?_, ?_, u, v, rfl, harg', hou ▸ hargs'⟩
      · rw [hu, hv, List.append_assoc]
      · rw [hov, hou, List.length_append, Nat.add_assoc]
    · rintro ⟨used, hrest, hoffset, u, v, rfl, harg, hargs⟩
      obtain ⟨args₁, h₁⟩ : ∃ args₁, messageReadArg bigEndian i type args c =
          .ok (args₁, ⟨c.offset + u.length, v ++ c'.rest⟩) :=
        exists_messageReadArg_iff.mpr ⟨u, by rw [hrest, List.append_assoc], rfl, harg⟩
      obtain ⟨args', h₂⟩ : ∃ args', messageReadArgs bigEndian (i + 1) types args₁
          ⟨c.offset + u.length, v ++ c'.rest⟩ = .ok (args', c') :=
        ih.mpr ⟨v, rfl, by rw [hoffset, List.length_append, Nat.add_assoc], hargs⟩
      exact ⟨args', (bind_of_ok h₁ _).trans h₂⟩

/-- A body is valid if and only if it consists of the arguments that the signature lists. -/
theorem messageParseBody_accepts (bigEndian : Bool) (signature body : Bytes) :
    ((∃ args, messageParseBody bigEndian signature body = .ok args) ↔
      Consecutive (Marshalled bigEndian (cDvarTypeDepthMax - 1)) (cDvarTypes signature) 0 body) ∧
    ∀ e, messageParseBody bigEndian signature body = .error e → e = .invalidBody := by
  constructor
  · constructor
    · rintro ⟨args, h⟩
      rw [messageParseBody] at h
      split at h
      · next args' c hargs =>
        obtain ⟨used, hrest, -, hwords⟩ := exists_messageReadArgs_iff.mp ⟨args', hargs⟩
        split at h
        · next hend =>
          rw [List.isEmpty_iff.mp hend, List.append_nil] at hrest
          obtain rfl : body = used := hrest
          exact hwords
        · cases h
      · cases h
    · intro hwords
      obtain ⟨args, hargs⟩ : ∃ args, messageReadArgs bigEndian 0 (cDvarTypes signature) [] ⟨0, body⟩ =
          .ok (args, ⟨body.length, []⟩) :=
        exists_messageReadArgs_iff.mpr ⟨body, (List.append_nil body).symm, (Nat.zero_add _).symm, hwords⟩
      refine ⟨args, ?_⟩
      simp only [messageParseBody, hargs, List.isEmpty_nil, if_true]
  · intro e h
    rw [messageParseBody] at h
    split at h
    · split at h
      · cases h
      · exact (Except.error.inj h).symm
    · exact (Except.error.inj h).symm

end Wire

end DbusBroker
