import Mathlib.Data.List.Induction
import Mathlib.Data.Nat.Notation

/-!
# Records of what happened

A record is a list of events in the order in which they happened. Every event of it may be asked to be explained
by the events before it. A log of changes leads from one value to another. Events that open and close something are
brackets if only what is closed is opened, and only what is open is closed.
-/

universe u

namespace Record

variable {α : Type u}

section Explained

variable {P : List α → α → Prop} {l l' : List α} {e : α}

/-- Every event is explained by those before it. -/
def Explained (P : List α → α → Prop) (l : List α) : Prop := ∀ pre e post, l = pre ++ e :: post → P pre e

/-- Nothing is to be explained. -/
theorem explained_nil (P : List α → α → Prop) : Explained P [] := by
  intro pre e post h
  exact absurd h (List.append_ne_nil_of_right_ne_nil pre (List.cons_ne_nil e post)).symm

/-- One more event is explained. -/
theorem Explained.concat (h : Explained P l) (he : P l e) : Explained P (l ++ [e]) := by
  intro pre e' post hsplit
  rcases List.append_eq_append_iff.mp hsplit with h' | h'
  · obtain ⟨between, hpre, hrest⟩ := h'
    cases between with
    | nil =>
      rw [List.nil_append, List.cons.injEq] at hrest
      rw [hpre, List.append_nil, ← hrest.1]
      exact he
    | cons b between =>
      rw [List.cons_append, List.cons.injEq] at hrest
      exact absurd hrest.2 (List.append_ne_nil_of_right_ne_nil between (List.cons_ne_nil e' post)).symm
  · obtain ⟨between, hpre, hrest⟩ := h'
    cases between with
    | nil =>
      rw [List.nil_append, List.cons.injEq] at hrest
      rw [List.append_nil] at hpre
      rw [← hpre, hrest.1]
      exact he
    | cons b between =>
      rw [List.cons_append, List.cons.injEq] at hrest
      exact h pre e' between (by rw [hpre, hrest.1])

/-- Some more events are explained by whatever is before them. -/
theorem Explained.append (h : Explained P l) (h' : ∀ e ∈ l', ∀ pre, P pre e) : Explained P (l ++ l') := by
  induction l' generalizing l with
  | nil =>
    rw [List.append_nil]
    exact h
  | cons e rest ih =>
    rw [List.append_cons]
    exact ih (h.concat (h' e List.mem_cons_self l)) fun e' he' => h' e' (List.mem_cons_of_mem e he')

/-- What was recorded before is explained as well. -/
theorem Explained.of_append (h : Explained P (l ++ l')) : Explained P l := by
  intro pre e post hsplit
  exact h pre e (post ++ l') (by rw [hsplit, List.append_assoc, List.cons_append])

/-- The last event is explained. -/
theorem Explained.last (h : Explained P (l ++ [e])) : P l e := h l e [] rfl

/-- A weaker explanation. -/
theorem Explained.imp {Q : List α → α → Prop} (h : Explained P l) (himp : ∀ pre e, P pre e → Q pre e) : Explained Q l :=
  fun pre e post hsplit => himp pre e (h pre e post hsplit)

end Explained

section Chains

variable {p q r : α} {log log' : List (α × α)}

/-- Changes that lead from one value to another, each one a change. -/
def Chain : α → List (α × α) → α → Prop
  | p, [], q => p = q
  | p, c :: rest, q => c.1 = p ∧ c.1 ≠ c.2 ∧ Chain c.2 rest q

/-- Changes that lead on. -/
theorem Chain.append (h : Chain p log q) (h' : Chain q log' r) : Chain p (log ++ log') r := by
  induction log generalizing p with
  | nil =>
    rw [show p = q from h]
    exact h'
  | cons c rest ih => exact ⟨h.1, h.2.1, ih h.2.2⟩

/-- The value after some changes. -/
def valueAfter (p : α) (log : List (α × α)) : α := log.foldl (fun _ c => c.2) p

/-- A log leads to the value after it. -/
theorem Chain.eq_valueAfter (h : Chain p log q) : q = valueAfter p log := by
  induction log generalizing p with
  | nil => exact h.symm
  | cons c rest ih => exact ih h.2.2

end Chains

section Brackets

variable {opens closes : α → Bool} {l pre mid : List α} {e : α}

/-- Whether something is open after some events. -/
def isOpen (opens closes : α → Bool) (l : List α) : Bool :=
  l.foldl (fun o e => if opens e then true else if closes e then false else o) false

/-- One more event. -/
theorem isOpen_concat (opens closes : α → Bool) (l : List α) (e : α) :
    isOpen opens closes (l ++ [e]) = if opens e then true else if closes e then false else isOpen opens closes l := by
  rw [isOpen, List.foldl_append]
  rfl

/-- Some events that open and close nothing. -/
theorem isOpen_append (hopens : ∀ e ∈ mid, opens e = false) (hcloses : ∀ e ∈ mid, closes e = false) (l : List α) :
    isOpen opens closes (l ++ mid) = isOpen opens closes l := by
  induction mid generalizing l with
  | nil => rw [List.append_nil]
  | cons e rest ih =>
    rw [List.append_cons, ih (fun e' he' => hopens e' (List.mem_cons_of_mem e he'))
      (fun e' he' => hcloses e' (List.mem_cons_of_mem e he')), isOpen_concat, hopens e List.mem_cons_self,
      hcloses e List.mem_cons_self, if_neg Bool.false_ne_true, if_neg Bool.false_ne_true]

/-- An event opens what is closed, closes what is open, and never both. -/
structure Bracket (opens closes : α → Bool) (pre : List α) (e : α) : Prop where
  opening : opens e = true → isOpen opens closes pre = false
  closing : closes e = true → isOpen opens closes pre = true

/-- As much was closed as was opened, but for what is still open. -/
theorem countP_brackets (h : Explained (Bracket opens closes) l) :
    l.countP opens = l.countP closes + (isOpen opens closes l).toNat := by
  induction l using List.reverseRecOn with
  | nil => rfl
  | append_singleton l e ih =>
    have hl := ih h.of_append
    obtain ⟨hopening, hclosing⟩ := h.last
    rw [List.countP_append, List.countP_append, List.countP_singleton, List.countP_singleton, isOpen_concat, hl]
    cases hopens : opens e with
    | true =>
      have hclosed := hopening hopens
      cases hcloses : closes e with
      | true => exact absurd ((hclosing hcloses).symm.trans hclosed) Bool.noConfusion
      | false => simp [hclosed]
    | false =>
      cases hcloses : closes e with
      | true => simp [hclosing hcloses]
      | false => simp

/-- What is closed while nothing is opened was open before and is closed after. -/
theorem countP_closes (h : Explained (Bracket opens closes) (pre ++ mid)) (hopens : mid.countP opens = 0) :
    mid.countP closes + (isOpen opens closes (pre ++ mid)).toNat = (isOpen opens closes pre).toNat := by
  have hall := countP_brackets h
  have hpre := countP_brackets h.of_append
  rw [List.countP_append, List.countP_append, hopens] at hall
  omega

end Brackets

end Record
