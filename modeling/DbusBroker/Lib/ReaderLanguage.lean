import DbusBroker.Lib.AlignedReader

/-!
# What an aligned reader accepts

A reader takes tokens from the front of the buffer, and which it takes may depend on the position
where it stands. The tokens that it takes and the values that it returns for them are a language.
The language of readers one after the other is made of their languages, a loop to the end of a
buffer accepts the words of one language one behind the other.

A language does not say which error is returned where there is no word of it.
-/

namespace AlignedReader

variable {ε β α γ : Type} {k n o : ℕ}

/-- The reader takes the words of a language, returns their values, and fails where no word stands. -/
def Accepts (r : AlignedReader ε β α) (L : ℕ → List β → α → Prop) : Prop :=
  ∀ c a c', r c = .ok (a, c') ↔
    ∃ used, c.rest = used ++ c'.rest ∧ c'.offset = c.offset + used.length ∧ L c.offset used a

/-- The reader comes to the end of those buffers that are words of a language. -/
def AcceptsAll (r : AlignedReader ε β α) (L : ℕ → List β → α → Prop) : Prop :=
  ∀ o b a, (∃ c', r ⟨o, b⟩ = .ok (a, c') ∧ c'.rest = []) ↔ L o b a

/-- Words of several languages, one behind the other. -/
def Consecutive (L : γ → ℕ → List β → Prop) : List γ → ℕ → List β → Prop
  | [], _, b => b = []
  | x :: xs, o, b => ∃ u v, b = u ++ v ∧ L x o u ∧ Consecutive L xs (o + u.length) v

variable {r r' : AlignedReader ε β α} {L L' : ℕ → List β → α → Prop}

theorem Accepts.congr (h : Accepts r L) (hL : ∀ o used a, L o used a ↔ L' o used a) : Accepts r L' := by
  intro c a c'
  simp only [h c a c', hL]

theorem AcceptsAll.congr (h : AcceptsAll r L) (hL : ∀ o used a, L o used a ↔ L' o used a) : AcceptsAll r L' :=
  fun o b a => (h o b a).trans (hL o b a)

theorem Accepts.pure (a : α) : Accepts (ε := ε) (β := β) (pure a) fun _ used b => used = [] ∧ b = a := by
  intro c b c'
  rw [pure_eq_ok_iff]
  constructor
  · rintro ⟨rfl, rfl⟩
    exact ⟨[], rfl, rfl, rfl, rfl⟩
  · rintro ⟨used, hrest, hoffset, rfl, rfl⟩
    obtain ⟨o, rest⟩ := c
    obtain ⟨o', rest'⟩ := c'
    exact ⟨rfl, congrArg₂ Cursor.mk hoffset.symm hrest⟩

theorem Accepts.fail (e : ε) : Accepts (fun _ => .error e : AlignedReader ε β α) fun _ _ _ => False := by
  intro c a c'
  constructor
  · intro h
    cases h
  · rintro ⟨_, _, _, h⟩
    exact h.elim

theorem Accepts.check (e : ε) (condition : Bool) :
    Accepts (check (β := β) e condition) fun _ used _ => used = [] ∧ condition = true := by
  intro c a c'
  rw [check_eq_ok_iff]
  constructor
  · rintro ⟨hcondition, rfl⟩
    exact ⟨[], rfl, rfl, rfl, hcondition⟩
  · rintro ⟨used, hrest, hoffset, rfl, hcondition⟩
    obtain ⟨o, rest⟩ := c
    obtain ⟨o', rest'⟩ := c'
    exact ⟨hcondition, congrArg₂ Cursor.mk hoffset hrest.symm⟩

/-- Two readers accept the words of the one with those of the other behind. -/
theorem Accepts.bind {f : α → AlignedReader ε β γ} {M : α → ℕ → List β → γ → Prop} (h : Accepts r L)
    (h' : ∀ a, Accepts (f a) (M a)) :
    Accepts (r >>= f) fun o used b => ∃ u v a, used = u ++ v ∧ L o u a ∧ M a (o + u.length) v b := by
  intro c b c'
  rw [bind_eq_ok_iff]
  constructor
  · rintro ⟨a, c₁, hr, hf⟩
    obtain ⟨u, hu, hou, hL⟩ := (h c a c₁).mp hr
    obtain ⟨v, hv, hov, hM⟩ := (h' a c₁ b c').mp hf
    refine ⟨u ++ v, ?_, ?_, u, v, a, rfl, hL, hou ▸ hM⟩
    · rw [hu, hv, List.append_assoc]
    · rw [hov, hou, List.length_append, Nat.add_assoc]
  · rintro ⟨used, hrest, hoffset, u, v, a, rfl, hL, hM⟩
    refine ⟨a, ⟨c.offset + u.length, v ++ c'.rest⟩, ?_, ?_⟩
    · exact (h _ _ _).mpr ⟨u, by rw [hrest, List.append_assoc], rfl, hL⟩
    · exact (h' a _ _ _).mpr ⟨v, rfl, by rw [hoffset, List.length_append, Nat.add_assoc], hM⟩

/-- A choice accepts what its branch accepts. -/
theorem Accepts.ite {p : Prop} [Decidable p] (h : p → Accepts r L) (h' : ¬ p → Accepts r' L) :
    Accepts (if p then r else r') L := by
  by_cases hp : p
  · rw [if_pos hp]
    exact h hp
  · rw [if_neg hp]
    exact h' hp

theorem Accepts.data [DecidableEq β] (blank : β) (short dirty : ε) (k n : ℕ) :
    Accepts (data blank short dirty k n) fun o used d => d.length = n ∧ used = List.replicate (gap k o) blank ++ d := by
  intro c d c'
  rw [data_eq_ok_iff]
  constructor
  · rintro ⟨hlen, hrest, hoffset⟩
    refine ⟨List.replicate (gap k c.offset) blank ++ d, ?_, ?_, hlen, rfl⟩
    · rw [hrest, List.append_assoc]
    · rw [hoffset, List.length_append, List.length_replicate, hlen, Nat.add_assoc]
  · rintro ⟨used, hrest, hoffset, hlen, rfl⟩
    refine ⟨hlen, ?_, ?_⟩
    · rw [hrest, List.append_assoc]
    · rw [hoffset, List.length_append, List.length_replicate, hlen, Nat.add_assoc]

/-- What is read as a buffer of its own is a word of that length. -/
theorem AcceptsAll.within {short dirty : ε} (h : AcceptsAll r L) (n : ℕ) :
    Accepts (within short dirty n r) fun o used a => used.length = n ∧ L o used a := by
  intro c a c'
  rw [AlignedReader.within]
  constructor
  · intro hok
    split at hok
    · cases hok
    · next hlen =>
      split at hok
      · next a₁ c₁ hr =>
        split at hok
        · next hend =>
          simp only [Except.ok.injEq, Prod.mk.injEq] at hok
          obtain ⟨rfl, rfl⟩ := hok
          have htake : (c.rest.take n).length = n := List.length_take_of_le (by omega)
          refine ⟨c.rest.take n, (List.take_append_drop n _).symm, by rw [htake], htake, ?_⟩
          exact (h _ _ _).mp ⟨c₁, hr, List.isEmpty_iff.mp hend⟩
        · cases hok
      · cases hok
  · rintro ⟨used, hrest, hoffset, rfl, hL⟩
    obtain ⟨c₁, hr, hend⟩ := (h _ _ _).mpr hL
    have hlen : ¬ c.rest.length < used.length := by
      rw [hrest, List.length_append]
      omega
    rw [if_neg hlen, hrest, List.take_left' rfl, List.drop_left' rfl]
    simp only [hr, hend, List.isEmpty_nil, if_true, ← hoffset]

/-! ## Loops -/

section loops

variable {L : γ → ℕ → List β → Prop}

theorem Consecutive.congr {L' : γ → ℕ → List β → Prop} {xs : List γ} (hL : ∀ x ∈ xs, ∀ o b, L x o b ↔ L' x o b)
    (o : ℕ) (b : List β) : Consecutive L xs o b ↔ Consecutive L' xs o b := by
  induction xs generalizing o b with
  | nil => exact Iff.rfl
  | cons x xs ih =>
    have htail := ih fun y hy => hL y (List.mem_cons_of_mem x hy)
    simp only [Consecutive, hL x List.mem_cons_self, htail]

/-- A loop over a list accepts a word for each of its members. -/
theorem Accepts.forM {f : γ → AlignedReader ε β PUnit} (h : ∀ x, Accepts (f x) fun o used _ => L x o used)
    (xs : List γ) : Accepts (xs.forM f) fun o used _ => Consecutive L xs o used := by
  induction xs with
  | nil => exact (Accepts.pure PUnit.unit).congr fun o used a => by simp [Consecutive]
  | cons x xs ih =>
    refine ((h x).bind fun _ => ih).congr fun o used a => ?_
    constructor
    · rintro ⟨u, v, _, rfl, hx, hxs⟩
      exact ⟨u, v, rfl, hx, hxs⟩
    · rintro ⟨u, v, rfl, hx, hxs⟩
      exact ⟨u, v, PUnit.unit, rfl, hx, hxs⟩

variable {stuck : ε} {r : AlignedReader ε β Unit} {x : γ}

/-- A loop that has come to the end of a buffer has read words one behind the other. -/
theorem consecutive_of_whileFuel (h : Accepts r fun o used _ => L x o used) {fuel : ℕ} {b : List β} {c' : Cursor β}
    (hloop : whileFuel stuck (fun _ => r) fuel () ⟨o, b⟩ = .ok ((), c')) :
    ∃ m, Consecutive L (List.replicate m x) o b := by
  induction fuel generalizing o b with
  | zero =>
    cases b with
    | nil => exact ⟨0, rfl⟩
    | cons a b => simp [whileFuel] at hloop
  | succ fuel ih =>
    cases b with
    | nil => exact ⟨0, rfl⟩
    | cons a b =>
      simp only [whileFuel, List.isEmpty_cons, Bool.false_eq_true, if_false] at hloop
      obtain ⟨_, c₁, hround, hloop'⟩ := bind_eq_ok_iff.mp hloop
      obtain ⟨u, hrest, hoffset, hL⟩ := (h _ _ _).mp hround
      obtain ⟨m, hm⟩ := ih hloop'
      refine ⟨m + 1, u, c₁.rest, hrest, hL, ?_⟩
      rw [← show c₁.offset = o + u.length from hoffset]
      exact hm

/-- The loop reads words one behind the other to the end. Words without tokens are passed over. -/
theorem whileFuel_consecutive (h : Accepts r fun o used _ => L x o used) {m fuel : ℕ} {b : List β}
    (hfuel : b.length ≤ fuel) (hwords : Consecutive L (List.replicate m x) o b) :
    ∃ c', whileFuel stuck (fun _ => r) fuel () ⟨o, b⟩ = .ok ((), c') ∧ c'.rest = [] := by
  induction m generalizing o b fuel with
  | zero =>
    obtain rfl : b = [] := hwords
    cases fuel <;> exact ⟨⟨o, []⟩, rfl, rfl⟩
  | succ m ih =>
    obtain ⟨u, v, rfl, hL, hrest⟩ := hwords
    by_cases hempty : u = []
    · subst hempty
      exact ih hfuel hrest
    · have hpos := List.length_pos_of_ne_nil hempty
      rw [List.length_append] at hfuel
      obtain ⟨fuel, rfl⟩ : ∃ fuel', fuel = fuel' + 1 := ⟨fuel - 1, by omega⟩
      have hround : r ⟨o, u ++ v⟩ = .ok ((), ⟨o + u.length, v⟩) := (h _ _ _).mpr ⟨u, rfl, rfl, hL⟩
      have hmore : ¬ (u ++ v).isEmpty = true := by simp [hempty]
      simp only [whileFuel, if_neg hmore]
      rw [bind_of_ok hround]
      exact ih (by omega) hrest

/-- A loop to the end of a buffer accepts any number of words, one behind the other. -/
theorem acceptsAll_whileMore (h : Accepts r fun o used _ => L x o used) :
    AcceptsAll (whileMore stuck (fun _ => r) ()) fun o b _ => ∃ m, Consecutive L (List.replicate m x) o b := by
  intro o b _
  constructor
  · rintro ⟨c', hloop, _⟩
    exact consecutive_of_whileFuel h hloop
  · rintro ⟨m, hm⟩
    exact whileFuel_consecutive h le_rfl hm

/-- Aligned data whose size is a multiple of the alignment have no gaps between them: they are a buffer of so many
times their size. -/
theorem consecutive_data_iff (blank : β) (hk : 0 < k) (hn : k ∣ n) (ho : k ∣ o) {m : ℕ} {b : List β} :
    Consecutive (fun (_ : γ) o u => ∃ d : List β, d.length = n ∧ u = List.replicate (gap k o) blank ++ d)
      (List.replicate m x) o b ↔ b.length = m * n := by
  induction m generalizing o b with
  | zero => simp [Consecutive]
  | succ m ih =>
    rw [Nat.succ_mul]
    constructor
    · rintro ⟨u, v, rfl, ⟨d, hd, rfl⟩, hv⟩
      rw [gap_of_dvd ho hk, List.replicate_zero, List.nil_append, hd] at hv
      have hlen := (ih (Nat.dvd_add ho hn)).mp hv
      rw [gap_of_dvd ho hk, List.replicate_zero, List.nil_append, List.length_append]
      omega
    · intro hlen
      have htake : (b.take n).length = n := List.length_take_of_le (by omega)
      refine ⟨b.take n, b.drop n, (List.take_append_drop n b).symm, ⟨b.take n, htake, ?_⟩, ?_⟩
      · rw [gap_of_dvd ho hk, List.replicate_zero, List.nil_append]
      · rw [htake]
        exact (ih (Nat.dvd_add ho hn)).mpr (by rw [List.length_drop]; omega)

end loops

/-! ## Loops with a state -/

section state

variable {σ : Type}

/-- The reader takes the words of a language; of the values that it returns something is observed only. -/
def AcceptsAs (g : α → γ) (r : AlignedReader ε β α) (L : ℕ → List β → γ → Prop) : Prop :=
  ∀ c c' x, (∃ a, r c = .ok (a, c') ∧ g a = x) ↔
    ∃ used, c.rest = used ++ c'.rest ∧ c'.offset = c.offset + used.length ∧ L c.offset used x

variable {g : α → γ} {L M : ℕ → List β → γ → Prop}

theorem AcceptsAs.congr (h : AcceptsAs g r L) (hL : ∀ o used x, L o used x ↔ M o used x) : AcceptsAs g r M := by
  intro c c' x
  simp only [h c c' x, hL]

theorem AcceptsAs.ite {p : Prop} [Decidable p] (h : p → AcceptsAs g r L) (h' : ¬ p → AcceptsAs g r' L) :
    AcceptsAs g (if p then r else r') L := by
  by_cases hp : p
  · rw [if_pos hp]
    exact h hp
  · rw [if_neg hp]
    exact h' hp

/-- What is observed of the value of a word. -/
theorem Accepts.as {L : ℕ → List β → α → Prop} (h : Accepts r L) (g : α → γ) :
    AcceptsAs g r fun o used x => ∃ a, L o used a ∧ g a = x := by
  intro c c' x
  simp only [h c _ c']
  constructor
  · rintro ⟨a, ⟨used, hrest, hoffset, hL⟩, hx⟩
    exact ⟨used, hrest, hoffset, a, hL, hx⟩
  · rintro ⟨used, hrest, hoffset, a, hL, hx⟩
    exact ⟨a, ⟨used, hrest, hoffset, hL⟩, hx⟩

/-- Words one behind the other, where each depends on the state that the words before have left. -/
inductive Chain (S : γ → ℕ → List β → γ → Prop) : γ → ℕ → List β → γ → Prop
  | nil {x : γ} {o : ℕ} : Chain S x o [] x
  | cons {x y z : γ} {o : ℕ} {u v : List β} (hne : u ≠ []) (hword : S x o u y) (hrest : Chain S y (o + u.length) v z) :
      Chain S x o (u ++ v) z

variable {stuck : ε} {step : σ → AlignedReader ε β σ} {g : σ → γ} {S : γ → ℕ → List β → γ → Prop}

theorem chain_of_whileFuel (h : ∀ s, AcceptsAs g (step s) (S (g s))) (hne : ∀ x o u y, S x o u y → u ≠ []) {fuel : ℕ}
    {s s' : σ} {b : List β} {c' : Cursor β} (hloop : whileFuel stuck step fuel s ⟨o, b⟩ = .ok (s', c')) :
    Chain S (g s) o b (g s') := by
  induction fuel generalizing s o b with
  | zero =>
    cases b with
    | nil =>
      obtain ⟨rfl, rfl⟩ : s = s' ∧ _ = c' := by simpa [whileFuel] using hloop
      exact .nil
    | cons a b => simp [whileFuel] at hloop
  | succ fuel ih =>
    cases b with
    | nil =>
      obtain ⟨rfl, rfl⟩ : s = s' ∧ _ = c' := by simpa [whileFuel] using hloop
      exact .nil
    | cons a b =>
      simp only [whileFuel, List.isEmpty_cons, Bool.false_eq_true, if_false] at hloop
      obtain ⟨s₁, c₁, hround, hloop'⟩ := bind_eq_ok_iff.mp hloop
      obtain ⟨u, hrest, hoffset, hS⟩ := (h s _ _ _).mp ⟨s₁, hround, rfl⟩
      have hchain := ih hloop'
      rw [show c₁.offset = o + u.length from hoffset] at hchain
      rw [show a :: b = u ++ c₁.rest from hrest]
      exact .cons (hne _ _ _ _ hS) hS hchain

theorem whileFuel_chain (h : ∀ s, AcceptsAs g (step s) (S (g s))) {x y : γ} {b : List β} (hchain : Chain S x o b y)
    {s : σ} (hs : g s = x) {fuel : ℕ} (hfuel : b.length ≤ fuel) :
    ∃ s' c', whileFuel stuck step fuel s ⟨o, b⟩ = .ok (s', c') ∧ c'.rest = [] ∧ g s' = y := by
  induction hchain generalizing s fuel with
  | @nil x o => cases fuel <;> exact ⟨s, ⟨o, []⟩, rfl, rfl, hs⟩
  | @cons x y z o u v hne hword hrest ih =>
    have hpos := List.length_pos_of_ne_nil hne
    rw [List.length_append] at hfuel
    obtain ⟨fuel, rfl⟩ : ∃ fuel', fuel = fuel' + 1 := ⟨fuel - 1, by omega⟩
    obtain ⟨s₁, hround, hs₁⟩ := (h s ⟨o, u ++ v⟩ ⟨o + u.length, v⟩ y).mpr ⟨u, rfl, rfl, hs ▸ hword⟩
    have hmore : ¬ (u ++ v).isEmpty = true := by simp [hne]
    simp only [whileFuel, if_neg hmore]
    rw [bind_of_ok hround]
    exact ih hs₁ (by omega)

/-- A loop to the end of a buffer accepts the chains of the words of its rounds. -/
theorem acceptsAll_whileMore_chain (h : ∀ s, AcceptsAs g (step s) (S (g s)))
    (hne : ∀ x o u y, S x o u y → u ≠ []) (s : σ) (b : List β) (y : γ) :
    (∃ s' c', whileMore stuck step s ⟨o, b⟩ = .ok (s', c') ∧ c'.rest = [] ∧ g s' = y) ↔ Chain S (g s) o b y := by
  constructor
  · rintro ⟨s', c', hloop, -, rfl⟩
    exact chain_of_whileFuel h hne hloop
  · intro hchain
    exact whileFuel_chain h hchain rfl le_rfl

end state

end AlignedReader
