import DbusBroker.Bus.MatchKeys

/-!
# Values of match rules

The quoting rules of the D-Bus specification for the values of a match rule, as the pieces a
value is made of: a quoted section stands for itself, a backslash and an apostrophe outside
quotes stand for an apostrophe, and any other byte outside quotes stands for itself. A comma
outside quotes, or the end of the string, ends the value.

`match_copy_value` decodes exactly these pieces, although it toggles a flag at every apostrophe
instead of looking for the end of a section.
-/

namespace DbusBroker

/-- The first piece of a string, as the bytes it stands for and what follows it. -/
inductive ValuePiece : Bytes → Bytes → Bytes → Prop
  /-- A quoted section. -/
  | quoted (section_ rest : Bytes) (h : byte '\'' ∉ section_) :
      ValuePiece (byte '\'' :: (section_ ++ byte '\'' :: rest)) section_ rest
  /-- An escaped apostrophe. -/
  | escaped (rest : Bytes) : ValuePiece (byte '\\' :: byte '\'' :: rest) [byte '\''] rest
  /-- A byte outside quotes that stands for itself. -/
  | plain (c : UInt8) (rest : Bytes) (hquote : c ≠ byte '\'') (hcomma : c ≠ byte ',')
      (hescape : c = byte '\\' → rest.head? ≠ some (byte '\'')) : ValuePiece (c :: rest) [c] rest

/-- Some pieces of a string, as the bytes they stand for and what follows them. -/
inductive ValuePieces : Bytes → Bytes → Bytes → Prop
  | nil (s : Bytes) : ValuePieces s [] s
  | cons {s v t w u : Bytes} (hpiece : ValuePiece s v t) (hrest : ValuePieces t w u) : ValuePieces s (v ++ w) u

/-- What follows a value that has ended: nothing, or a comma and the rest of the rule. -/
inductive ValueEnd : Bytes → Bytes → Prop
  | string : ValueEnd [] []
  | comma (rest : Bytes) : ValueEnd (byte ',' :: rest) rest

/-- A string that starts with a value, and what follows the comma behind it. -/
def ReadsValue (s v rest : Bytes) : Prop := ∃ t, ValuePieces s v t ∧ ValueEnd t rest

/-- A string whose value ends within quotes. -/
def LeavesQuoteOpen (s : Bytes) : Prop := ∃ v open_, ValuePieces s v (byte '\'' :: open_) ∧ byte '\'' ∉ open_

/-- The canonical quoting of a value: in quotes, with every apostrophe outside of them. -/
def quoteValue (v : Bytes) : Bytes :=
  byte '\'' :: (v.flatMap (fun c => if c = byte '\'' then lit "'\\''" else [c]) ++ [byte '\''])

/-- A result with bytes in front of the decoded value. -/
def prependValue (v : Bytes) (r : Except MatchError (Bytes × Bytes)) : Except MatchError (Bytes × Bytes) :=
  r.map fun r => (v ++ r.1, r.2)

section Steps

variable {c : UInt8} {s rest : Bytes}

theorem prependValue_nil (r : Except MatchError (Bytes × Bytes)) : prependValue [] r = r := by cases r <;> rfl

theorem prependValue_append (v w : Bytes) (r : Except MatchError (Bytes × Bytes)) :
    prependValue (v ++ w) r = prependValue v (prependValue w r) := by
  cases r with
  | error e => rfl
  | ok r => exact congrArg (fun v => Except.ok (v, r.2)) (List.append_assoc v w r.1)

/-- An apostrophe opens or closes a section. -/
theorem matchCopyValue_apostrophe (rest : Bytes) (quoted : Bool) :
    matchCopyValue (byte '\'' :: rest) quoted = matchCopyValue rest !quoted := by
  rw [matchCopyValue.eq_def]
  exact if_pos rfl

/-- A comma outside quotes ends the value. -/
theorem matchCopyValue_comma (rest : Bytes) : matchCopyValue (byte ',' :: rest) false = .ok ([], rest) := by
  rw [matchCopyValue.eq_def]
  exact (if_neg (by decide)).trans (if_pos (by decide))

/-- A byte within quotes stands for itself. -/
theorem matchCopyValue_quoted (hc : c ≠ byte '\'') (rest : Bytes) :
    matchCopyValue (c :: rest) true = prependValue [c] (matchCopyValue rest true) := by
  rw [matchCopyValue.eq_def]
  dsimp only
  rw [if_neg hc, if_neg (by simp), Bool.not_true, Bool.and_false]
  rfl

/-- A backslash and an apostrophe outside quotes stand for an apostrophe. -/
theorem matchCopyValue_escaped (rest : Bytes) :
    matchCopyValue (byte '\\' :: byte '\'' :: rest) false = prependValue [byte '\''] (matchCopyValue rest false) := by
  rw [matchCopyValue.eq_def]
  exact (if_neg (by decide)).trans ((if_neg (by decide)).trans (if_pos rfl))

/-- Any other byte outside quotes stands for itself. -/
theorem matchCopyValue_plain (hquote : c ≠ byte '\'') (hcomma : c ≠ byte ',')
    (hescape : c = byte '\\' → rest.head? ≠ some (byte '\'')) :
    matchCopyValue (c :: rest) false = prependValue [c] (matchCopyValue rest false) := by
  rw [matchCopyValue.eq_def]
  dsimp only
  rw [if_neg hquote, if_neg (by simp [hcomma]), Bool.not_false, Bool.and_true]
  by_cases hc : c = byte '\\'
  · cases rest with
    | nil => rw [hc]; rfl
    | cons d rest =>
      have hd : d ≠ byte '\'' := fun heq => hescape hc (by rw [heq]; rfl)
      rw [decide_eq_true hc]
      exact if_neg hd
  · rw [decide_eq_false hc]
    rfl

end Steps

section Pieces

variable {s v t rest section_ : Bytes}

/-- A section that is closed stands for itself. -/
theorem matchCopyValue_section (h : byte '\'' ∉ section_) (rest : Bytes) :
    matchCopyValue (section_ ++ byte '\'' :: rest) true = prependValue section_ (matchCopyValue rest false) := by
  induction section_ with
  | nil => rw [prependValue_nil, List.nil_append, matchCopyValue_apostrophe, Bool.not_true]
  | cons c section_ ih =>
    rw [List.mem_cons, not_or] at h
    obtain ⟨hc, hsection⟩ := h
    rw [List.cons_append, matchCopyValue_quoted (Ne.symm hc), ih hsection, ← prependValue_append]
    rfl

/-- A section that is not closed is an error. -/
theorem matchCopyValue_open (h : byte '\'' ∉ section_) : matchCopyValue section_ true = .error .invalid := by
  induction section_ with
  | nil => rfl
  | cons c section_ ih =>
    rw [List.mem_cons, not_or] at h
    obtain ⟨hc, hsection⟩ := h
    rw [matchCopyValue_quoted (Ne.symm hc), ih hsection]
    rfl

/-- One piece is decoded to what it stands for. -/
theorem ValuePiece.copyValue (h : ValuePiece s v t) :
    matchCopyValue s false = prependValue v (matchCopyValue t false) := by
  cases h with
  | quoted section_ rest hsection => rw [matchCopyValue_apostrophe, Bool.not_false, matchCopyValue_section hsection]
  | escaped rest => exact matchCopyValue_escaped t
  | plain c rest hquote hcomma hescape => exact matchCopyValue_plain hquote hcomma hescape

/-- Pieces are decoded to what they stand for. -/
theorem ValuePieces.copyValue (h : ValuePieces s v t) :
    matchCopyValue s false = prependValue v (matchCopyValue t false) := by
  induction h with
  | nil s => exact (prependValue_nil _).symm
  | cons hpiece hrest ih => rw [hpiece.copyValue, ih, prependValue_append]

/-- A value that has ended is decoded to nothing. -/
theorem ValueEnd.copyValue (h : ValueEnd t rest) : matchCopyValue t false = .ok ([], rest) := by
  cases h with
  | string => rfl
  | comma rest => exact matchCopyValue_comma rest

/-- A piece is not empty. -/
theorem ValuePiece.length_lt (h : ValuePiece s v t) : t.length < s.length := by
  cases h with
  | quoted section_ rest hsection =>
    rw [List.length_cons, List.length_append, List.length_cons]
    omega
  | escaped rest =>
    rw [List.length_cons, List.length_cons]
    omega
  | plain c rest hquote hcomma hescape => exact Nat.lt_succ_self _

/-- A piece stands for no more bytes than it has. -/
theorem ValuePiece.length_le (h : ValuePiece s v t) : v.length + t.length ≤ s.length := by
  cases h with
  | quoted section_ rest hsection =>
    rw [List.length_cons, List.length_append, List.length_cons]
    omega
  | escaped rest =>
    rw [List.length_cons, List.length_cons, List.length_cons, List.length_nil]
    omega
  | plain c rest hquote hcomma hescape => exact Nat.le_of_eq (Nat.add_comm 1 _)

/-- Pieces stand for no more bytes than they have. -/
theorem ValuePieces.length_le (h : ValuePieces s v t) : v.length + t.length ≤ s.length := by
  induction h with
  | nil s => exact Nat.le_of_eq (Nat.zero_add _)
  | cons hpiece hrest ih =>
    have hle := hpiece.length_le
    rw [List.length_append]
    omega

/-- A value has no more bytes than the string it is read from. -/
theorem ReadsValue.length_le (h : ReadsValue s v rest) : v.length + rest.length ≤ s.length := by
  obtain ⟨t, hpieces, hend⟩ := h
  have hle := hpieces.length_le
  cases hend with
  | string => exact hle
  | comma rest =>
    rw [List.length_cons] at hle
    omega

/-- Every string ends its value, leaves a quote open or starts with a piece. -/
theorem exists_valuePiece (s : Bytes) :
    (∃ rest, ValueEnd s rest) ∨ (∃ open_, s = byte '\'' :: open_ ∧ byte '\'' ∉ open_) ∨ ∃ v t, ValuePiece s v t := by
  cases s with
  | nil => exact .inl ⟨[], .string⟩
  | cons c rest =>
    by_cases hquote : c = byte '\''
    · rw [hquote]
      by_cases hclosed : byte '\'' ∈ rest
      · obtain ⟨section_, rest', hrest, hsection⟩ := List.eq_append_cons_of_mem hclosed
        exact .inr (.inr ⟨section_, rest', hrest ▸ .quoted section_ rest' hsection⟩)
      · exact .inr (.inl ⟨rest, rfl, hclosed⟩)
    · by_cases hcomma : c = byte ','
      · exact .inl ⟨rest, hcomma ▸ .comma rest⟩
      · by_cases hescape : c = byte '\\' ∧ rest.head? = some (byte '\'')
        · obtain ⟨hc, hhead⟩ := hescape
          cases rest with
          | nil => cases hhead
          | cons d rest =>
            have hd : d = byte '\'' := Option.some.inj hhead
            rw [hc, hd]
            exact .inr (.inr ⟨_, rest, .escaped rest⟩)
        · exact .inr (.inr ⟨[c], rest, .plain c rest hquote hcomma fun hc hhead => hescape ⟨hc, hhead⟩⟩)

/-- Every string starts with a value or leaves a quote open. -/
theorem readsValue_or_leavesQuoteOpen (s : Bytes) : (∃ v rest, ReadsValue s v rest) ∨ LeavesQuoteOpen s := by
  induction hn : s.length using Nat.strongRecOn generalizing s with
  | ind n ih =>
    obtain hend | hopen | hpiece := exists_valuePiece s
    · obtain ⟨rest, hend⟩ := hend
      exact .inl ⟨[], rest, s, .nil s, hend⟩
    · obtain ⟨open_, hs, hopen⟩ := hopen
      exact .inr ⟨[], open_, hs ▸ .nil s, hopen⟩
    · obtain ⟨v, t, hpiece⟩ := hpiece
      obtain hreads | hopen := ih t.length (hn ▸ hpiece.length_lt) t rfl
      · obtain ⟨w, rest, u, hpieces, hend⟩ := hreads
        exact .inl ⟨v ++ w, rest, u, .cons hpiece hpieces, hend⟩
      · obtain ⟨w, open_, hpieces, hopen⟩ := hopen
        exact .inr ⟨v ++ w, open_, .cons hpiece hpieces, hopen⟩

/-- A value is decoded to what its pieces stand for. -/
theorem ReadsValue.copyValue (h : ReadsValue s v rest) : matchCopyValue s false = .ok (v, rest) := by
  obtain ⟨t, hpieces, hend⟩ := h
  rw [hpieces.copyValue, hend.copyValue]
  exact congrArg (fun v => Except.ok (v, rest)) (List.append_nil v)

/-- An open quote is an error. -/
theorem LeavesQuoteOpen.copyValue (h : LeavesQuoteOpen s) : matchCopyValue s false = .error .invalid := by
  obtain ⟨v, open_, hpieces, hopen⟩ := h
  rw [hpieces.copyValue, matchCopyValue_apostrophe, Bool.not_false, matchCopyValue_open hopen]
  rfl

/-- What `match_copy_value` decodes is a value by the rules of the specification. -/
theorem matchCopyValue_eq_ok_iff (s v rest : Bytes) :
    matchCopyValue s false = .ok (v, rest) ↔ ReadsValue s v rest := by
  refine ⟨fun h => ?_, ReadsValue.copyValue⟩
  obtain hreads | hopen := readsValue_or_leavesQuoteOpen s
  · obtain ⟨w, rest', hreads⟩ := hreads
    have heq := hreads.copyValue.symm.trans h
    cases heq
    exact hreads
  · cases hopen.copyValue.symm.trans h

/-- `match_copy_value` fails where a quote is left open. -/
theorem matchCopyValue_eq_error_iff (s : Bytes) (e : MatchError) :
    matchCopyValue s false = .error e ↔ e = .invalid ∧ LeavesQuoteOpen s := by
  constructor
  · intro h
    obtain hreads | hopen := readsValue_or_leavesQuoteOpen s
    · obtain ⟨v, rest, hreads⟩ := hreads
      cases hreads.copyValue.symm.trans h
    · cases hopen.copyValue.symm.trans h
      exact ⟨rfl, hopen⟩
  · intro h
    rw [h.1, h.2.copyValue]

/-- Decoding the inside of a canonical quoting. -/
theorem matchCopyValue_quoteValue (v rest : Bytes) :
    matchCopyValue (quoteValue v ++ rest) false = prependValue v (matchCopyValue rest false) := by
  rw [quoteValue, List.cons_append, matchCopyValue_apostrophe, Bool.not_false, List.append_assoc]
  induction v with
  | nil => rw [prependValue_nil, List.flatMap_nil, List.nil_append, List.singleton_append, matchCopyValue_apostrophe,
      Bool.not_true]
  | cons c v ih =>
    rw [List.flatMap_cons, List.append_assoc]
    by_cases hc : c = byte '\''
    · -- close the quotes, escape the apostrophe, open them again
      rw [if_pos hc]
      change matchCopyValue (byte '\'' :: byte '\\' :: byte '\'' :: byte '\'' ::
        (v.flatMap (fun c => if c = byte '\'' then lit "'\\''" else [c]) ++ ([byte '\''] ++ rest))) true = _
      rw [matchCopyValue_apostrophe, Bool.not_true, matchCopyValue_escaped, matchCopyValue_apostrophe, Bool.not_false,
        ih, hc, ← prependValue_append]
      rfl
    · rw [if_neg hc, List.singleton_append, matchCopyValue_quoted hc, ih, ← prependValue_append]
      rfl

/-- Decoding gives back what was quoted and stops behind the comma or at the end of the string, and on
every string it follows the rules of the specification, failing only where a quote is left open. -/
theorem matchCopyValue_quoting :
    (∀ v : Bytes, matchCopyValue (quoteValue v) false = .ok (v, []) ∧
      ∀ rest, matchCopyValue (quoteValue v ++ byte ',' :: rest) false = .ok (v, rest)) ∧
    (∀ s v rest : Bytes, matchCopyValue s false = .ok (v, rest) ↔ ReadsValue s v rest) ∧
    ∀ (s : Bytes) (e : MatchError), matchCopyValue s false = .error e ↔ e = .invalid ∧ LeavesQuoteOpen s := by
  refine ⟨fun v => ⟨?_, fun rest => ?_⟩, matchCopyValue_eq_ok_iff, matchCopyValue_eq_error_iff⟩
  · rw [← List.append_nil (quoteValue v), matchCopyValue_quoteValue]
    exact congrArg (fun v => Except.ok (v, [])) (List.append_nil v)
  · rw [matchCopyValue_quoteValue, matchCopyValue_comma]
    exact congrArg (fun v => Except.ok (v, rest)) (List.append_nil v)

/-- The quoted values of the specification. -/
example : matchCopyValue (lit "''\\''',arg1") false = .ok (lit "'", lit "arg1") ∧
    matchCopyValue (lit "'\\',") false = .ok (lit "\\", []) ∧ matchCopyValue (lit "','") false = .ok (lit ",", []) ∧
    matchCopyValue (lit "\\\\") false = .ok (lit "\\\\", []) := by decide +kernel

end Pieces

end DbusBroker
