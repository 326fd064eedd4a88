import DbusBroker.Bus.MatchKeys

/-!
# The order of match keys

`match_keys_compare` compares the keys one after the other and then the argument slots of
both arrays in turn. It is a total order whose zero is equality, because accepted keys carry
nothing that the comparison leaves out: the sender id is determined by the sender string.
-/

namespace DbusBroker

open Std

/-- The loop of `match_keys_compare` over the next `n` argument slots. -/
def compareArgs (f g : MatchFilter) : ℕ → ℕ → Ordering
  | 0, _ => .eq
  | n + 1, i =>
    (stringCompare (argAt f.args i) (argAt g.args i)).then <|
    (stringCompare (argAt f.argpaths i) (argAt g.argpaths i)).then <|
    compareArgs f g n (i + 1)

/-- `match_keys_compare`. -/
def matchKeysCompare (k l : MatchKeys) : Ordering :=
  (stringCompare k.sender l.sender).then <|
  (stringCompare k.destination l.destination).then <|
  (stringCompare k.filter.interface l.filter.interface).then <|
  (stringCompare k.filter.member l.filter.member).then <|
  (stringCompare k.filter.path l.filter.path).then <|
  (stringCompare k.pathNamespace l.pathNamespace).then <|
  (stringCompare k.arg0namespace l.arg0namespace).then <|
  (compare k.filter.type l.filter.type).then <|
  (compare k.filter.args.length l.filter.args.length).then <|
  (compare k.filter.argpaths.length l.filter.argpaths.length).then <|
  compareArgs k.filter l.filter (max k.filter.args.length k.filter.argpaths.length) 0

/-- The argument slots in the order in which they are compared. -/
def argSlots (f : MatchFilter) : ℕ → ℕ → List (Option Bytes)
  | 0, _ => []
  | n + 1, i => argAt f.args i :: argAt f.argpaths i :: argSlots f n (i + 1)

/-- Comparing argument slots compares the sequences of slots. -/
theorem compareArgs_eq_compare (f g : MatchFilter) (n i : ℕ) :
    compareArgs f g n i = compare (argSlots f n i) (argSlots g n i) := by
  induction n generalizing i with
  | zero => rfl
  | succ n ih =>
    rw [compareArgs, argSlots, argSlots, List.compare_cons_cons, List.compare_cons_cons,
      stringCompare_eq_compare, stringCompare_eq_compare, ih]

/-- All argument slots of a filter. -/
def allArgSlots (f : MatchFilter) : List (Option Bytes) := argSlots f (max f.args.length f.argpaths.length) 0

/-- The comparison as a lexicographic order of orders of the parts. -/
theorem matchKeysCompare_eq_compareLex :
    matchKeysCompare =
      compareLex (compareOn fun k => k.sender) (compareLex (compareOn fun k => k.destination)
      (compareLex (compareOn fun k => k.filter.interface) (compareLex (compareOn fun k => k.filter.member)
      (compareLex (compareOn fun k => k.filter.path) (compareLex (compareOn fun k => k.pathNamespace)
      (compareLex (compareOn fun k => k.arg0namespace) (compareLex (compareOn fun k => k.filter.type)
      (compareLex (compareOn fun k => k.filter.args.length)
      (compareLex (compareOn fun k => k.filter.argpaths.length)
      (compareOn fun k => allArgSlots k.filter)))))))))) := by
  funext k l
  simp only [matchKeysCompare, compareLex, compareOn, stringCompare_eq_compare, compareArgs_eq_compare]
  -- the slots are compared only when both arrays have the same lengths
  cases hargs : compare k.filter.args.length l.filter.args.length with
  | lt => rfl
  | gt => rfl
  | eq =>
    cases hpaths : compare k.filter.argpaths.length l.filter.argpaths.length with
    | lt => rfl
    | gt => rfl
    | eq =>
      have hargs' := LawfulEqCmp.eq_of_compare hargs
      have hpaths' := LawfulEqCmp.eq_of_compare hpaths
      rw [allArgSlots, allArgSlots, hargs', hpaths']

instance : TransCmp matchKeysCompare := by
  rw [matchKeysCompare_eq_compareLex]
  infer_instance

/-- Equal slot sequences have equal slots. -/
theorem argAt_eq_of_argSlots_eq {f g : MatchFilter} {n i : ℕ} (h : argSlots f n i = argSlots g n i) {j : ℕ}
    (hij : i ≤ j) (hj : j < i + n) :
    argAt f.args j = argAt g.args j ∧ argAt f.argpaths j = argAt g.argpaths j := by
  induction n generalizing i with
  | zero => omega
  | succ n ih =>
    rw [argSlots, argSlots, List.cons.injEq, List.cons.injEq] at h
    obtain ⟨harg, hpath, hrest⟩ := h
    rcases Nat.eq_or_lt_of_le hij with rfl | hlt
    · exact ⟨harg, hpath⟩
    · exact ih hrest hlt (by omega)

/-- Arrays of the same length with the same slots are the same. -/
theorem args_eq_of_argAt_eq {as bs : List (Option Bytes)} (hlength : as.length = bs.length)
    (h : ∀ j < as.length, argAt as j = argAt bs j) : as = bs := by
  apply List.ext_getElem hlength
  intro j hj hj'
  have hslot := h j hj
  rw [argAt, argAt, List.getElem?_eq_getElem hj, List.getElem?_eq_getElem hj', Option.join_some,
    Option.join_some] at hslot
  exact hslot

instance : LawfulEqCmp matchKeysCompare where
  compare_self := ReflCmp.compare_self
  eq_of_compare := by
    intro k l h
    rw [matchKeysCompare_eq_compareLex] at h
    simp only [compareLex_eq_eq, compareOn, Std.compare_eq_iff_eq] at h
    obtain ⟨hsender, hdestination, hinterface, hmember, hpath, hpathNamespace, harg0namespace, htype, hargs,
      hargpaths, hslots⟩ := h
    have hat : ∀ j < max k.filter.args.length k.filter.argpaths.length,
        argAt k.filter.args j = argAt l.filter.args j ∧
          argAt k.filter.argpaths j = argAt l.filter.argpaths j := by
      intro j hj
      rw [allArgSlots, allArgSlots, ← hargs, ← hargpaths] at hslots
      exact argAt_eq_of_argSlots_eq hslots (Nat.zero_le j) (by omega)
    have hargs' := args_eq_of_argAt_eq hargs fun j hj => (hat j (by omega)).1
    have hargpaths' := args_eq_of_argAt_eq hargpaths fun j hj => (hat j (by omega)).2
    have hid : k.filter.sender = l.filter.sender := by rw [k.senderId, l.senderId, hsender]
    have hfilter : k.filter = l.filter :=
      MatchFilter.ext htype hid hinterface hmember hpath hargs' hargpaths'
    exact MatchKeys.ext hfilter hdestination hsender hpathNamespace harg0namespace

end DbusBroker
