import Mathlib.Data.List.Basic
import Mathlib.Algebra.Order.Group.Nat

/-!
# Readers of an aligned buffer

A reader takes tokens from the front of a buffer and counts its position, since data start at
multiples of their alignment and blanks fill the gaps before them. A reader is local if what it
reads depends on the tokens it takes and on the position modulo the largest alignment only: it
reads the same wherever these tokens stand at such a position, whatever follows them.

An array of aligned elements is then laid out element by element, and every loop over it sees
the elements one by one. Elements can be taken out and put in behind the last one.
-/

/-- Where a reader stands: its position and the rest of the buffer. -/
structure Cursor (β : Type) where
  offset : ℕ
  rest : List β
  deriving DecidableEq, Repr

/-- A reader that may fail. -/
abbrev AlignedReader (ε β α : Type) := StateT (Cursor β) (Except ε) α

namespace AlignedReader

variable {ε β α γ σ : Type} {k m n o : ℕ}

/-- The next multiple of the alignment. -/
def align (k n : ℕ) : ℕ := (n + (k - 1)) / k * k

/-- The number of blanks in front of aligned data. -/
def gap (k n : ℕ) : ℕ := align k n - n

theorem le_align (hk : 0 < k) (n : ℕ) : n ≤ align k n := by
  have hmod := Nat.mod_lt (n + (k - 1)) hk
  have hdiv := Nat.div_add_mod' (n + (k - 1)) k
  rw [align]
  omega

theorem dvd_align (k n : ℕ) : k ∣ align k n := Nat.dvd_mul_left k _

theorem align_of_dvd (h : k ∣ n) (hk : 0 < k) : align k n = n := by
  obtain ⟨q, rfl⟩ := h
  have hdiv : (k * q + (k - 1)) / k = q := by
    rw [Nat.mul_add_div hk, Nat.div_eq_of_lt (by omega), Nat.add_zero]
  rw [align, hdiv, Nat.mul_comm]

/-- Aligned positions stay so when a multiple is added. -/
theorem align_add (hk : 0 < k) (h : k ∣ m) (n : ℕ) : align k (m + n) = m + align k n := by
  obtain ⟨q, rfl⟩ := h
  rw [align, align, Nat.add_assoc, Nat.mul_add_div hk, Nat.add_mul, Nat.mul_comm k q]

theorem add_gap (hk : 0 < k) (n : ℕ) : n + gap k n = align k n := by
  have hle := le_align hk n
  rw [gap]
  omega

theorem gap_of_dvd (h : k ∣ n) (hk : 0 < k) : gap k n = 0 := by rw [gap, align_of_dvd h hk, Nat.sub_self]

/-- The gap depends on the position modulo the alignment. -/
theorem gap_congr (hk : 0 < k) (h : m % k = n % k) : gap k m = gap k n := by
  have hshift (j : ℕ) : gap k j = gap k (j % k) := by
    have halign : align k j = k * (j / k) + align k (j % k) := by
      conv_lhs => rw [← Nat.div_add_mod j k]
      exact align_add hk (Nat.dvd_mul_right k _) _
    have hdiv := Nat.div_add_mod j k
    rw [gap, gap, halign]
    omega
  rw [hshift m, h, ← hshift n]

/-! ## Readers -/

/-- The position of the reader. -/
def offset : AlignedReader ε β ℕ := fun c => .ok (c.offset, c)

/-- Fail unless a condition holds. -/
def check (e : ε) (condition : Bool) : AlignedReader ε β Unit :=
  fun c => if condition then .ok ((), c) else .error e

/-- Take aligned data, behind blanks only. -/
def data [DecidableEq β] (blank : β) (short dirty : ε) (k n : ℕ) : AlignedReader ε β (List β) := fun c =>
  if c.rest.length < gap k c.offset + n then .error short
  else if (c.rest.take (gap k c.offset)).any (· ≠ blank) then .error dirty
  else .ok ((c.rest.drop (gap k c.offset)).take n,
    ⟨c.offset + gap k c.offset + n, c.rest.drop (gap k c.offset + n)⟩)

/-- Read the next `n` tokens as a buffer of their own, to its end. -/
def within (short dirty : ε) (n : ℕ) (r : AlignedReader ε β α) : AlignedReader ε β α := fun c =>
  if c.rest.length < n then .error short
  else match r ⟨c.offset, c.rest.take n⟩ with
    | .ok (a, c') => if c'.rest.isEmpty then .ok (a, ⟨c.offset + n, c.rest.drop n⟩) else .error dirty
    | .error e => .error e

/-- A reader with its errors translated. -/
def mapError {δ : Type} (f : ε → δ) (r : AlignedReader ε β α) : AlignedReader δ β α := fun c => (r c).mapError f

/-- The tokens that a reader takes. -/
def consumed (r : AlignedReader ε β α) : AlignedReader ε β (List β) := fun c =>
  match r c with
  | .ok (_, c') => .ok (c.rest.take (c'.offset - c.offset), c')
  | .error e => .error e

/-- A loop over the rest of the buffer, with a bound on its rounds. -/
def whileFuel (stuck : ε) (step : σ → AlignedReader ε β σ) : ℕ → σ → AlignedReader ε β σ
  | 0, s => fun c => if c.rest.isEmpty then .ok (s, c) else .error stuck
  | fuel + 1, s => fun c => if c.rest.isEmpty then .ok (s, c) else (step s >>= whileFuel stuck step fuel) c

/-- A loop while there is more in the buffer. A round takes a token at least. -/
def whileMore (stuck : ε) (step : σ → AlignedReader ε β σ) (s : σ) : AlignedReader ε β σ :=
  fun c => whileFuel stuck step c.rest.length s c

/-- A reader that is to read a whole buffer from an aligned position. -/
def whole (r : AlignedReader ε β α) (b : List β) : Option α :=
  match r ⟨0, b⟩ with
  | .ok (a, c) => if c.rest.isEmpty then some a else none
  | .error _ => none

theorem pure_apply (a : α) (c : Cursor β) : (pure a : AlignedReader ε β α) c = .ok (a, c) := rfl

theorem pure_eq_ok_iff {a b : α} {c c' : Cursor β} :
    (pure a : AlignedReader ε β α) c = .ok (b, c') ↔ a = b ∧ c = c' := by
  rw [pure_apply, Except.ok.injEq, Prod.mk.injEq]

theorem bind_eq_ok_iff {r : AlignedReader ε β α} {f : α → AlignedReader ε β γ} {c c' : Cursor β} {b : γ} :
    (r >>= f) c = .ok (b, c') ↔ ∃ a c₁, r c = .ok (a, c₁) ∧ f a c₁ = .ok (b, c') := by
  change Except.bind (r c) (fun v => f v.1 v.2) = _ ↔ _
  cases h : r c with
  | error e => simp [Except.bind]
  | ok v =>
    obtain ⟨a, c₁⟩ := v
    simp [Except.bind]

theorem map_eq_ok_iff {r : AlignedReader ε β α} {g : α → γ} {c c' : Cursor β} {b : γ} :
    (g <$> r) c = .ok (b, c') ↔ ∃ a, r c = .ok (a, c') ∧ g a = b := by
  rw [map_eq_pure_bind, bind_eq_ok_iff]
  constructor
  · rintro ⟨a, c₁, hr, hpure⟩
    obtain ⟨rfl, rfl⟩ := pure_eq_ok_iff.mp hpure
    exact ⟨a, hr, rfl⟩
  · rintro ⟨a, hr, rfl⟩
    exact ⟨a, c', hr, rfl⟩

theorem bind_of_ok {r : AlignedReader ε β α} {c c' : Cursor β} {a : α} (h : r c = .ok (a, c'))
    (f : α → AlignedReader ε β γ) : (r >>= f) c = f a c' := by
  change Except.bind (r c) (fun v => f v.1 v.2) = _
  rw [h]
  rfl

theorem check_eq_ok_iff {e : ε} {condition : Bool} {c c' : Cursor β} {a : Unit} :
    check e condition c = .ok (a, c') ↔ condition = true ∧ c' = c := by
  rw [check]
  split <;> simp_all [eq_comm]

/-- A buffer of its own that is all there is. -/
theorem within_length_eq_ok_iff {short dirty : ε} {r : AlignedReader ε β α} {buffer : List β} {c : Cursor β} {a : α} :
    within short dirty buffer.length r ⟨o, buffer⟩ = .ok (a, c) ↔
      ∃ c', r ⟨o, buffer⟩ = .ok (a, c') ∧ c'.rest = [] ∧ c = ⟨o + buffer.length, []⟩ := by
  rw [within, if_neg (Nat.lt_irrefl _), List.take_length, List.drop_length]
  cases h : r ⟨o, buffer⟩ with
  | error e => simp
  | ok v =>
    obtain ⟨a', c'⟩ := v
    by_cases hend : c'.rest = []
    · simp [hend, eq_comm]
    · simp [hend]

/-! ## Locality -/

/-- From a position of this alignment the reader takes exactly these tokens, whatever follows. -/
def Reads (k : ℕ) (r : AlignedReader ε β α) (o : ℕ) (used : List β) (a : α) : Prop :=
  ∀ offset extra, offset % k = o % k → r ⟨offset, used ++ extra⟩ = .ok (a, ⟨offset + used.length, extra⟩)

/-- What is read depends on the tokens that are taken and on the alignment of the position only. -/
def Local (k : ℕ) (r : AlignedReader ε β α) : Prop :=
  ∀ c a c', r c = .ok (a, c') →
    ∃ used, c.rest = used ++ c'.rest ∧ c'.offset = c.offset + used.length ∧ Reads k r c.offset used a

theorem Reads.bind {r : AlignedReader ε β α} {f : α → AlignedReader ε β γ} {used used' : List β} {a : α} {b : γ}
    (h : Reads k r o used a) (h' : Reads k (f a) (o + used.length) used' b) : Reads k (r >>= f) o (used ++ used') b := by
  intro offset extra hoffset
  have hmod : (offset + used.length) % k = (o + used.length) % k := by rw [Nat.add_mod, hoffset, ← Nat.add_mod]
  rw [List.append_assoc, bind_of_ok (h offset _ hoffset), h' _ extra hmod, List.length_append, Nat.add_assoc]

theorem Local.pure (a : α) : Local (ε := ε) (β := β) k (pure a) := by
  intro c b c' h
  obtain ⟨rfl, rfl⟩ := pure_eq_ok_iff.mp h
  exact ⟨[], rfl, rfl, fun offset extra _ => rfl⟩

theorem Local.bind {r : AlignedReader ε β α} {f : α → AlignedReader ε β γ} (h : Local k r)
    (h' : ∀ a, Local k (f a)) : Local k (r >>= f) := by
  intro c b c' hok
  obtain ⟨a, c₁, hr, hf⟩ := bind_eq_ok_iff.mp hok
  obtain ⟨used, hrest, hoffset, hreads⟩ := h c a c₁ hr
  obtain ⟨used', hrest', hoffset', hreads'⟩ := h' a c₁ b c' hf
  refine ⟨used ++ used', ?_, ?_, hreads.bind (hoffset ▸ hreads')⟩
  · rw [hrest, hrest', List.append_assoc]
  · rw [hoffset', hoffset, List.length_append, Nat.add_assoc]

theorem Local.check (e : ε) (condition : Bool) : Local (β := β) k (check e condition) := by
  intro c a c' h
  obtain ⟨hcondition, rfl⟩ := check_eq_ok_iff.mp h
  exact ⟨[], rfl, rfl, fun offset extra _ => by rw [AlignedReader.check, if_pos hcondition]; rfl⟩

theorem Local.fail (e : ε) : Local (β := β) k (fun _ => .error e : AlignedReader ε β α) := by
  intro c a c' h
  cases h

theorem whole_eq_some_iff {r : AlignedReader ε β α} {b : List β} {a : α} :
    whole r b = some a ↔ ∃ c, r ⟨0, b⟩ = .ok (a, c) ∧ c.rest = [] := by
  rw [whole]
  cases h : r ⟨0, b⟩ with
  | error e => simp
  | ok v =>
    obtain ⟨a', c⟩ := v
    by_cases hend : c.rest = []
    · simp [hend]
    · simp [hend]

theorem mapError_eq_ok_iff {δ : Type} {f : ε → δ} {r : AlignedReader ε β α} {c c' : Cursor β} {a : α} :
    mapError f r c = .ok (a, c') ↔ r c = .ok (a, c') := by
  rw [mapError]
  cases r c <;> simp [Except.mapError]

theorem Local.mapError {δ : Type} {r : AlignedReader ε β α} (h : Local k r) (f : ε → δ) : Local k (mapError f r) := by
  intro c a c' hok
  obtain ⟨used, hrest, hoffset, hreads⟩ := h c a c' (mapError_eq_ok_iff.mp hok)
  exact ⟨used, hrest, hoffset, fun offset extra hmod => mapError_eq_ok_iff.mpr (hreads offset extra hmod)⟩

/-- A local loop over a list. -/
theorem Local.forM {f : γ → AlignedReader ε β PUnit} (h : ∀ x, Local k (f x)) (xs : List γ) : Local k (xs.forM f) := by
  induction xs with
  | nil => exact .pure _
  | cons x xs ih => exact (h x).bind fun _ => ih

/-- A choice between local readers is local. -/
theorem Local.ite {p : Prop} [Decidable p] {r r' : AlignedReader ε β α} (h : Local k r) (h' : Local k r') :
    Local k (if p then r else r') := by
  split
  · exact h
  · exact h'

section data

variable [DecidableEq β] {blank : β} {short dirty : ε}

/-- Data with their gap are read where the gap is blank and the data are complete. -/
theorem data_eq_ok_iff {c c' : Cursor β} {d : List β} :
    data blank short dirty k n c = .ok (d, c') ↔
      d.length = n ∧ c.rest = List.replicate (gap k c.offset) blank ++ (d ++ c'.rest) ∧
        c'.offset = c.offset + gap k c.offset + n := by
  obtain ⟨o, rest⟩ := c
  obtain ⟨o', rest'⟩ := c'
  simp only [data]
  constructor
  · intro h
    split at h
    · cases h
    · next hlen =>
      split at h
      · cases h
      · next hblank =>
        have hgap : rest.take (gap k o) = List.replicate (gap k o) blank := by
          refine List.eq_replicate_iff.mpr ⟨List.length_take_of_le (by omega), fun b hb => ?_⟩
          by_contra hne
          exact hblank (List.any_eq_true.mpr ⟨b, hb, by simpa using hne⟩)
        simp only [Except.ok.injEq, Prod.mk.injEq, Cursor.mk.injEq] at h
        obtain ⟨rfl, rfl, rfl⟩ := h
        refine ⟨?_, ?_, rfl⟩
        · rw [List.length_take, List.length_drop]
          omega
        · rw [← hgap, ← List.drop_drop, List.take_append_drop, List.take_append_drop]
  · rintro ⟨rfl, rfl, rfl⟩
    have hlen : ¬ (List.replicate (gap k o) blank ++ (d ++ rest')).length < gap k o + d.length := by
      simp only [List.length_append, List.length_replicate]
      omega
    have htake : (List.replicate (gap k o) blank ++ (d ++ rest')).take (gap k o) = List.replicate (gap k o) blank :=
      List.take_left' List.length_replicate
    have hdrop : (List.replicate (gap k o) blank ++ (d ++ rest')).drop (gap k o) = d ++ rest' :=
      List.drop_left' List.length_replicate
    have hany : ¬ ((List.replicate (gap k o) blank).any (· ≠ blank) = true) := by simp
    rw [if_neg hlen, htake, if_neg hany, ← List.drop_drop, hdrop, List.take_left' rfl, List.drop_left' rfl]

/-- Reading aligned data is local for every multiple of the alignment. -/
theorem Local.data {j : ℕ} (hj : 0 < j) (hdvd : j ∣ k) (n : ℕ) : Local k (data blank short dirty j n) := by
  intro c d c' h
  obtain ⟨hlen, hrest, hoffset⟩ := data_eq_ok_iff.mp h
  refine ⟨List.replicate (gap j c.offset) blank ++ d, ?_, ?_, fun offset extra hmod => ?_⟩
  · rw [hrest, List.append_assoc]
  · rw [hoffset, List.length_append, List.length_replicate, hlen, Nat.add_assoc]
  · have hgap : gap j offset = gap j c.offset := by
      refine gap_congr hj ?_
      rw [← Nat.mod_mod_of_dvd offset hdvd, hmod, Nat.mod_mod_of_dvd _ hdvd]
    refine data_eq_ok_iff.mpr ⟨hlen, ?_, ?_⟩
    · rw [hgap, List.append_assoc]
    · rw [hgap, List.length_append, List.length_replicate, hlen, Nat.add_assoc]

end data

/-! ## Loops -/

/-- From a position of the same alignment the reader does the same to the same buffer. -/
def Shifts (k : ℕ) (r : AlignedReader ε β α) : Prop :=
  ∀ c a c', r c = .ok (a, c') →
    c.offset ≤ c'.offset ∧
      ∀ offset, offset % k = c.offset % k → r ⟨offset, c.rest⟩ = .ok (a, ⟨offset + (c'.offset - c.offset), c'.rest⟩)

theorem Local.shifts {r : AlignedReader ε β α} (h : Local k r) : Shifts k r := by
  intro c a c' hok
  obtain ⟨used, hrest, hoffset, hreads⟩ := h c a c' hok
  refine ⟨by omega, fun offset hmod => ?_⟩
  have hlen : c'.offset - c.offset = used.length := by omega
  rw [hrest, hlen]
  exact hreads offset c'.rest hmod

/-- What reads a buffer of its own to the end is local. -/
theorem Shifts.within {short dirty : ε} {r : AlignedReader ε β α} (h : Shifts k r) (n : ℕ) :
    Local k (within short dirty n r) := by
  intro c a c' hok
  rw [AlignedReader.within] at hok
  split at hok
  · cases hok
  · next hlen =>
    split at hok
    · next a₁ c₁ hr =>
      split at hok
      · next hend =>
        simp only [Except.ok.injEq, Prod.mk.injEq] at hok
        obtain ⟨rfl, rfl⟩ := hok
        obtain ⟨-, hshift⟩ := h _ _ _ hr
        have htake : (c.rest.take n).length = n := List.length_take_of_le (by omega)
        refine ⟨c.rest.take n, (List.take_append_drop n _).symm, by rw [htake], fun offset extra hmod => ?_⟩
        have hroom : ¬ (c.rest.take n ++ extra).length < n := by
          rw [List.length_append, htake]
          omega
        rw [AlignedReader.within, if_neg hroom, List.take_left' htake, List.drop_left' htake]
        simp only [hshift offset hmod, if_pos hend, htake]
      · cases hok
    · cases hok

/-- A loop of local rounds does the same from positions of one alignment. -/
theorem shifts_whileMore {stuck : ε} {step : σ → AlignedReader ε β σ} (h : ∀ s, Local k (step s)) (s : σ) :
    Shifts k (whileMore stuck step s) := by
  have hfuel (fuel : ℕ) (s : σ) : Shifts k (whileFuel stuck step fuel s) := by
    induction fuel generalizing s with
    | zero =>
      intro c a c' hok
      simp only [whileFuel] at hok
      split at hok
      · next hend =>
        simp only [Except.ok.injEq, Prod.mk.injEq] at hok
        obtain ⟨rfl, rfl⟩ := hok
        exact ⟨le_rfl, fun offset _ => by simp only [whileFuel, if_pos hend, Nat.sub_self, Nat.add_zero]⟩
      · cases hok
    | succ fuel ih =>
      intro c a c' hok
      simp only [whileFuel] at hok
      split at hok
      · next hend =>
        simp only [Except.ok.injEq, Prod.mk.injEq] at hok
        obtain ⟨rfl, rfl⟩ := hok
        exact ⟨le_rfl, fun offset _ => by simp only [whileFuel, if_pos hend, Nat.sub_self, Nat.add_zero]⟩
      · next hmore =>
        obtain ⟨s₁, c₁, hstep, hloop⟩ := bind_eq_ok_iff.mp hok
        obtain ⟨hle, hshift⟩ := (h s).shifts _ _ _ hstep
        obtain ⟨hle', hshift'⟩ := ih s₁ _ _ _ hloop
        refine ⟨hle.trans hle', fun offset hmod => ?_⟩
        have hmod' : (offset + (c₁.offset - c.offset)) % k = c₁.offset % k := by
          rw [Nat.add_mod, hmod, ← Nat.add_mod, Nat.add_sub_cancel' hle]
        have hsum : offset + (c₁.offset - c.offset) + (c'.offset - c₁.offset) = offset + (c'.offset - c.offset) := by omega
        simp only [whileFuel, if_neg hmore, bind_of_ok (hshift offset hmod), hshift' _ hmod', hsum]
  intro c a c' hok
  exact hfuel _ s c a c' hok

/-- What a local reader takes is local as well. -/
theorem Local.consumed {r : AlignedReader ε β α} (h : Local k r) : Local k (consumed r) := by
  intro c a c' hok
  rw [AlignedReader.consumed] at hok
  split at hok
  · next a₁ c₁ hr =>
    obtain ⟨used, hrest, hoffset, hreads⟩ := h _ _ _ hr
    simp only [Except.ok.injEq, Prod.mk.injEq] at hok
    obtain ⟨rfl, rfl⟩ := hok
    refine ⟨used, hrest, hoffset, fun offset extra hmod => ?_⟩
    have hlen : c₁.offset - c.offset = used.length := by omega
    have hlen' : offset + used.length - offset = used.length := by omega
    simp only [AlignedReader.consumed, hreads offset extra hmod, hlen, hlen', hrest, List.take_left]
  · cases hok

/-! ## Arrays of aligned elements -/

section layout

/-- The elements of an array one behind the other, each behind its gap. -/
def layout (blank : β) (k : ℕ) : ℕ → List (List β) → List β
  | _, [] => []
  | o, b :: bs => List.replicate (gap k o) blank ++ (b ++ layout blank k (align k o + b.length) bs)

/-- An element with the gap behind it. -/
def padded (blank : β) (k : ℕ) (b : List β) : List β := b ++ List.replicate (gap k b.length) blank

variable {blank : β}

theorem length_padded (hk : 0 < k) (b : List β) : (padded blank k b).length = align k b.length := by
  rw [padded, List.length_append, List.length_replicate, add_gap hk]

/-- Elements with the gaps behind them end at an aligned position. -/
theorem dvd_length_flatMap_padded (hk : 0 < k) (bs : List (List β)) : k ∣ (bs.flatMap (padded blank k)).length := by
  induction bs with
  | nil => exact Nat.dvd_zero k
  | cons b bs ih =>
    rw [List.flatMap_cons, List.length_append, length_padded hk]
    exact Nat.dvd_add (dvd_align k _) ih

/-- With the gap behind it, an array is its elements with the gaps behind them. -/
theorem layout_append_gap (blank : β) (hk : 0 < k) (o : ℕ) (bs : List (List β)) :
    layout blank k o bs ++ List.replicate (gap k (o + (layout blank k o bs).length)) blank =
      List.replicate (gap k o) blank ++ bs.flatMap (padded blank k) := by
  induction bs generalizing o with
  | nil => simp [layout]
  | cons b bs ih =>
    have hlen : o + (layout blank k o (b :: bs)).length =
        align k o + b.length + (layout blank k (align k o + b.length) bs).length := by
      have hgap := add_gap hk o
      simp only [layout, List.length_append, List.length_replicate]
      omega
    have hgap : gap k (align k o + b.length) = gap k b.length := by
      refine gap_congr hk ?_
      rw [Nat.add_mod, Nat.mod_eq_zero_of_dvd (dvd_align k o), Nat.zero_add, Nat.mod_mod]
    rw [hlen, layout, List.append_assoc, List.append_assoc, ih, hgap, List.flatMap_cons, padded, List.append_assoc]

/-- An array that starts at an aligned position ends where its elements with their gaps end. -/
theorem align_length_layout (hk : 0 < k) (ho : k ∣ o) (bs : List (List β)) :
    align k (o + (layout blank k o bs).length) = o + (bs.flatMap (padded blank k)).length := by
  have h := congrArg List.length (layout_append_gap blank hk o bs)
  have hgap := add_gap hk (o + (layout blank k o bs).length)
  simp only [List.length_append, List.length_replicate, gap_of_dvd ho hk] at h
  omega

variable (body : σ → AlignedReader ε β α) (next : σ → α → ℕ → σ)

/-- One round of a loop over an array: the gap, the element, and the new state, which may note where the element
ended. -/
def element [DecidableEq β] (blank : β) (short dirty : ε) (k : ℕ) (s : σ) : AlignedReader ε β σ := do
  let _ ← data blank short dirty k 0
  let a ← body s
  let o ← offset
  pure (next s a o)

/-- The state behind the elements of an array that starts at a position. -/
def elements (k : ℕ) : ℕ → σ → List (List β) → Option σ
  | _, s, [] => some s
  | o, s, b :: bs =>
    match whole (body s) b with
    | some a => elements k (align k o + b.length) (next s a (align k o + b.length)) bs
    | none => none

variable {body next}

theorem Reads.whole {r : AlignedReader ε β α} {b : List β} {a : α} (h : Reads k r o b a) (ho : k ∣ o) :
    whole r b = some a := by
  have h0 := h 0 [] (by rw [Nat.mod_eq_zero_of_dvd ho, Nat.zero_mod])
  rw [List.append_nil] at h0
  rw [AlignedReader.whole, h0]
  rfl

theorem Local.reads {r : AlignedReader ε β α} (h : Local k r) {b : List β} {a : α} (hwhole : AlignedReader.whole r b = some a)
    (ho : k ∣ o) : Reads k r o b a := by
  rw [AlignedReader.whole] at hwhole
  split at hwhole
  · next a₁ c₁ hr =>
    split at hwhole
    · next hend =>
      cases hwhole
      obtain ⟨used, hrest, -, hreads⟩ := h _ _ _ hr
      rw [List.isEmpty_iff.mp hend, List.append_nil] at hrest
      obtain rfl : b = used := hrest
      intro offset extra hmod
      exact hreads offset extra (by rw [hmod, Nat.mod_eq_zero_of_dvd ho, Nat.zero_mod])
    · cases hwhole
  · cases hwhole

/-- The length of an array with one more element in front. -/
theorem add_length_layout_cons (hk : 0 < k) (o : ℕ) (b : List β) (bs : List (List β)) :
    o + (layout blank k o (b :: bs)).length =
      align k o + b.length + (layout blank k (align k o + b.length) bs).length := by
  have hgap := add_gap hk o
  simp only [layout, List.length_append, List.length_replicate]
  omega

/-- Two arrays, one behind the other. -/
theorem layout_append (hk : 0 < k) (o : ℕ) (bs bs' : List (List β)) :
    layout blank k o (bs ++ bs') =
      layout blank k o bs ++ layout blank k (o + (layout blank k o bs).length) bs' := by
  induction bs generalizing o with
  | nil => rfl
  | cons b bs ih =>
    rw [List.cons_append, layout, ih, add_length_layout_cons hk, layout, List.append_assoc, List.append_assoc]

/-- The last element of an array has no gap behind it. -/
theorem layout_concat (hk : 0 < k) (ho : k ∣ o) (bs : List (List β)) (b : List β) :
    layout blank k o (bs ++ [b]) = bs.flatMap (padded blank k) ++ b := by
  have hpadded := layout_append_gap blank hk o bs
  rw [gap_of_dvd ho hk, List.replicate_zero, List.nil_append] at hpadded
  rw [layout_append hk, layout, layout, List.append_nil, ← List.append_assoc, hpadded]

variable (body next) in
/-- The state behind two arrays, one behind the other. -/
theorem elements_append (blank : β) (hk : 0 < k) (o : ℕ) (s : σ) (bs bs' : List (List β)) :
    elements body next k o s (bs ++ bs') =
      (elements body next k o s bs).bind fun s' =>
        elements body next k (o + (layout blank k o bs).length) s' bs' := by
  induction bs generalizing o s with
  | nil => rfl
  | cons b bs ih =>
    rw [List.cons_append, elements, elements, add_length_layout_cons hk]
    cases whole (body s) b with
    | none => rfl
    | some a => exact ih _ _

variable [DecidableEq β] {short dirty stuck : ε}

/-- A round of the loop reads an element behind its gap. -/
theorem element_eq_ok_iff {s s' : σ} {c c' : Cursor β} :
    element body next blank short dirty k s c = .ok (s', c') ↔
      ∃ rest a, c.rest = List.replicate (gap k c.offset) blank ++ rest ∧
        body s ⟨c.offset + gap k c.offset, rest⟩ = .ok (a, c') ∧ s' = next s a c'.offset := by
  rw [element, bind_eq_ok_iff]
  constructor
  · rintro ⟨d, c₁, hdata, hbody⟩
    obtain ⟨hd, hrest, hoffset⟩ := data_eq_ok_iff.mp hdata
    obtain ⟨a, c₂, ha, hnext⟩ := bind_eq_ok_iff.mp hbody
    have hstate : Except.ok (next s a c₂.offset, c₂) = Except.ok (ε := ε) (s', c') := hnext
    obtain ⟨rfl, rfl⟩ : next s a c₂.offset = s' ∧ c₂ = c' := by simpa using hstate
    obtain rfl := List.length_eq_zero_iff.mp hd
    obtain ⟨o₁, rest₁⟩ := c₁
    exact ⟨rest₁, a, by simpa using hrest, by rw [← ha, show o₁ = _ from hoffset, Nat.add_zero], rfl⟩
  · rintro ⟨rest, a, hrest, ha, rfl⟩
    refine ⟨[], ⟨c.offset + gap k c.offset, rest⟩, data_eq_ok_iff.mpr ⟨rfl, by simpa using hrest, rfl⟩, ?_⟩
    rw [bind_of_ok ha]
    rfl

section loop

variable (hk : 0 < k) (hempty : ∀ s, whole (body s) [] = none) {s s' : σ}

include hk in
/-- What such a loop has read is an array. -/
theorem exists_layout_of_whileFuel (hlocal : ∀ s, Local k (body s)) {buffer : List β} {c' : Cursor β} {fuel : ℕ}
    (h : whileFuel stuck (element body next blank short dirty k) fuel s ⟨o, buffer⟩ = .ok (s', c')) :
    ∃ bs, buffer = layout blank k o bs ∧ elements body next k o s bs = some s' ∧ c' = ⟨o + buffer.length, []⟩ := by
  induction fuel generalizing s o buffer with
  | zero =>
    cases buffer with
    | nil =>
      obtain ⟨rfl, rfl⟩ : s = s' ∧ _ = c' := by simpa [whileFuel] using h
      exact ⟨[], rfl, rfl, rfl⟩
    | cons b rest => simp [whileFuel] at h
  | succ fuel ih =>
    cases buffer with
    | nil =>
      obtain ⟨rfl, rfl⟩ : s = s' ∧ _ = c' := by simpa [whileFuel] using h
      exact ⟨[], rfl, rfl, rfl⟩
    | cons b rest =>
      simp only [whileFuel, List.isEmpty_cons, Bool.false_eq_true, if_false] at h
      obtain ⟨s₁, c₁, hround, hloop⟩ := bind_eq_ok_iff.mp h
      obtain ⟨buffer', a, hbuffer, hbody, rfl⟩ := element_eq_ok_iff.mp hround
      obtain ⟨used, hused, hoffset, hreads⟩ := hlocal s _ _ _ hbody
      obtain ⟨bs, hlayout, helements, hc⟩ := ih hloop
      have hwhole : whole (body s) used = some a := hreads.whole (add_gap hk o ▸ dvd_align k o)
      have hend : c₁.offset = align k o + used.length := by
        rw [hoffset]
        exact congrArg (· + used.length) (add_gap hk o)
      have hlen : o + (b :: rest).length = c₁.offset + c₁.rest.length := by
        have hsize := congrArg List.length hbuffer
        have hsize' := congrArg List.length hused
        have hgap := add_gap hk o
        simp only [List.length_append, List.length_replicate] at hsize hsize'
        omega
      refine ⟨used :: bs, ?_, ?_, ?_⟩
      · rw [layout, ← hend, ← hlayout]
        exact hbuffer.trans (congrArg _ hused)
      · rw [elements, hwhole, ← hend]
        exact helements
      · rw [hc, hlen]

omit [DecidableEq β] in
include hempty in
/-- An array has a token for every element at least. -/
theorem length_le_length_layout {bs : List (List β)} (h : elements body next k o s bs = some s') :
    bs.length ≤ (layout blank k o bs).length := by
  induction bs generalizing o s with
  | nil => exact Nat.zero_le _
  | cons b bs ih =>
    rw [elements] at h
    cases hwhole : whole (body s) b with
    | none => simp [hwhole] at h
    | some a =>
      rw [hwhole] at h
      have hne : b ≠ [] := fun hnil => by simp [hnil, hempty] at hwhole
      have hpos := List.length_pos_of_ne_nil hne
      have hrest := ih h
      simp only [layout, List.length_append, List.length_cons]
      omega

include hk hempty in
/-- The loop reads every array. -/
theorem whileFuel_layout (hlocal : ∀ s, Local k (body s)) {bs : List (List β)} {fuel : ℕ} (hfuel : bs.length ≤ fuel)
    (h : elements body next k o s bs = some s') :
    whileFuel stuck (element body next blank short dirty k) fuel s ⟨o, layout blank k o bs⟩ =
      .ok (s', ⟨o + (layout blank k o bs).length, []⟩) := by
  induction fuel generalizing s o bs with
  | zero =>
    obtain rfl := List.length_eq_zero_iff.mp (Nat.le_zero.mp hfuel)
    obtain rfl : s = s' := by simpa [elements] using h
    rfl
  | succ fuel ih =>
    cases bs with
    | nil =>
      obtain rfl : s = s' := by simpa [elements] using h
      rfl
    | cons b bs =>
      rw [elements] at h
      cases hwhole : whole (body s) b with
      | none => simp [hwhole] at h
      | some a =>
        rw [hwhole] at h
        have hne : b ≠ [] := fun hnil => by simp [hnil, hempty] at hwhole
        have hmore : ¬ ((layout blank k o (b :: bs)).isEmpty = true) := by simp [layout, hne]
        have hbody := (hlocal s).reads hwhole (dvd_align k o) (align k o)
          (layout blank k (align k o + b.length) bs) rfl
        have hround : element body next blank short dirty k s ⟨o, layout blank k o (b :: bs)⟩ =
            .ok (next s a (align k o + b.length), ⟨align k o + b.length, layout blank k (align k o + b.length) bs⟩) :=
          element_eq_ok_iff.mpr ⟨_, a, rfl, by rw [add_gap hk, hbody], rfl⟩
        simp only [whileFuel, if_neg hmore]
        rw [bind_of_ok hround, ih (Nat.le_of_succ_le_succ hfuel) h, add_length_layout_cons hk]

variable (body next) in
include hk hempty in
/-- A loop over an aligned array reads its elements one by one. -/
theorem whileMore_element_eq_ok_iff (hlocal : ∀ s, Local k (body s)) {buffer : List β} {c' : Cursor β} :
    whileMore stuck (element body next blank short dirty k) s ⟨o, buffer⟩ = .ok (s', c') ↔
      ∃ bs, buffer = layout blank k o bs ∧ elements body next k o s bs = some s' ∧ c' = ⟨o + buffer.length, []⟩ := by
  constructor
  · exact exists_layout_of_whileFuel hk hlocal
  · rintro ⟨bs, rfl, helements, rfl⟩
    exact whileFuel_layout hk hempty hlocal (length_le_length_layout hempty helements) helements

end loop

end layout

end AlignedReader
