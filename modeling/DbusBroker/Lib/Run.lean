import Mathlib.Data.Nat.Notation

/-!
# Runs of a state machine

A machine is a total step function. A run applies a sequence of operations in order, and a
condition may be asked of every step, on the state before it. An invariant of the steps
that meet the condition is an invariant of every such run.
-/

universe u v

namespace Machine

variable {σ : Type u} {ω : Type v} (step : σ → ω → σ)

/-- The state after a sequence of operations. -/
def run (s : σ) (ops : List ω) : σ := ops.foldl step s

/-- Every operation of a sequence meets a condition in the state it is applied to. -/
def Along (P : σ → ω → Prop) : σ → List ω → Prop
  | _, [] => True
  | s, op :: ops => P s op ∧ Along P (step s op) ops

/-- A condition that can be decided can be decided along a sequence. -/
instance decidableAlong (P : σ → ω → Prop) [∀ s op, Decidable (P s op)] :
    (s : σ) → (ops : List ω) → Decidable (Along step P s ops)
  | _, [] => isTrue trivial
  | s, op :: ops =>
    have := decidableAlong P (step s op) ops
    inferInstanceAs (Decidable (P s op ∧ Along step P (step s op) ops))

/-- The number of operations of a sequence that meet a condition in the state they are applied to. -/
def tally (P : σ → ω → Prop) [∀ s op, Decidable (P s op)] : σ → List ω → ℕ
  | _, [] => 0
  | s, op :: ops => (if P s op then 1 else 0) + tally P (step s op) ops

variable {step}

@[simp] theorem run_nil (s : σ) : run step s [] = s := rfl

@[simp] theorem run_cons (s : σ) (op : ω) (ops : List ω) :
    run step s (op :: ops) = run step (step s op) ops := rfl

/-- A run over two sequences is the run over the second from where the first ends. -/
theorem run_append (s : σ) (ops ops' : List ω) :
    run step s (ops ++ ops') = run step (run step s ops) ops' := List.foldl_append

/-- A condition holds along two sequences when it holds along both in turn. -/
theorem along_append {P : σ → ω → Prop} (s : σ) (ops ops' : List ω) :
    Along step P s (ops ++ ops') ↔ Along step P s ops ∧ Along step P (run step s ops) ops' := by
  induction ops generalizing s with
  | nil => simp [Along]
  | cons op rest ih => simp [Along, ih, and_assoc]

/-- Every sequence meets the empty condition. -/
theorem along_true (s : σ) (ops : List ω) : Along step (fun _ _ => True) s ops := by
  induction ops generalizing s with
  | nil => trivial
  | cons op rest ih => exact ⟨trivial, ih (step s op)⟩

/-- A weaker condition holds along the same sequence. -/
theorem Along.imp {P Q : σ → ω → Prop} (hPQ : ∀ s op, P s op → Q s op) {s : σ} {ops : List ω}
    (h : Along step P s ops) : Along step Q s ops := by
  induction ops generalizing s with
  | nil => trivial
  | cons op rest ih => exact ⟨hPQ s op h.1, ih h.2⟩

/-- Conditions that are the same in every state that keeps an invariant are the same along a sequence. -/
theorem along_congr {P Q : σ → ω → Prop} {Inv : σ → Prop} (hstep : ∀ s op, Inv s → Inv (step s op))
    (hPQ : ∀ s op, Inv s → (P s op ↔ Q s op)) {s : σ} (hinit : Inv s) (ops : List ω) :
    Along step P s ops ↔ Along step Q s ops := by
  induction ops generalizing s with
  | nil => exact Iff.rfl
  | cons op rest ih => exact and_congr (hPQ s op hinit) (ih (hstep s op hinit))

/-- What every admitted step preserves holds after every admitted run. -/
theorem run_invariant {P : σ → ω → Prop} {Inv : σ → Prop}
    (hstep : ∀ s op, Inv s → P s op → Inv (step s op)) {s : σ} {ops : List ω} (hinit : Inv s)
    (h : Along step P s ops) : Inv (run step s ops) := by
  induction ops generalizing s with
  | nil => exact hinit
  | cons op rest ih => exact ih (hstep s op hinit h.1) h.2

/-- What goes up with some operations and down with others is the difference of their numbers. -/
theorem run_tally (step : σ → ω → σ) {P Q : σ → ω → Prop} [∀ s op, Decidable (P s op)]
    [∀ s op, Decidable (Q s op)] {Inv : σ → Prop} (count : σ → ℕ) (hinv : ∀ s op, Inv s → Inv (step s op))
    (hstep : ∀ s op, Inv s →
      count (step s op) + (if Q s op then 1 else 0) = count s + (if P s op then 1 else 0))
    {s : σ} (hs : Inv s) (ops : List ω) :
    count (run step s ops) + tally step Q s ops = count s + tally step P s ops := by
  induction ops generalizing s with
  | nil => rfl
  | cons op rest ih =>
    have hfirst := hstep s op hs
    have hrest := ih (hinv s op hs)
    rw [run_cons, tally, tally]
    omega

/-! ### Machines that answer and can fail -/

/-- The answers to a sequence of operations, with the state after them. -/
def transcript {β : Type*} (step : σ → ω → Option (σ × β)) : σ → List ω → Option (σ × List β)
  | s, [] => some (s, [])
  | s, op :: ops => do
    let (s, answer) ← step s op
    let (s, answers) ← transcript step s ops
    return (s, answer :: answers)

theorem transcript_cons {β : Type*} (step : σ → ω → Option (σ × β)) {s s' : σ} {op : ω} {ops : List ω} {answer : β}
    (h : step s op = some (s', answer)) :
    transcript step s (op :: ops) = (transcript step s' ops).map fun r => (r.1, answer :: r.2) := by
  rw [transcript, h]
  cases hrest : transcript step s' ops <;> simp [hrest]

/-- A machine that takes every step of another one with the same answer has all of its transcripts. The relation may
depend on how many steps are left. -/
theorem transcript_simulation {β τ : Type*} {step : σ → ω → Option (σ × β)} {spec : τ → ω → Option (τ × β)}
    {R : ℕ → σ → τ → Prop}
    (hstep : ∀ n s t op t' answer, R (n + 1) s t → spec t op = some (t', answer) →
      ∃ s', step s op = some (s', answer) ∧ R n s' t')
    {ops : List ω} {s : σ} {t t' : τ} {answers : List β} (h : R ops.length s t)
    (hspec : transcript spec t ops = some (t', answers)) :
    ∃ s', transcript step s ops = some (s', answers) ∧ R 0 s' t' := by
  induction ops generalizing s t answers with
  | nil =>
    cases hspec
    exact ⟨s, rfl, h⟩
  | cons op rest ih =>
    cases hfirst : spec t op with
    | none => simp [transcript, hfirst] at hspec
    | some r =>
      obtain ⟨t₁, answer⟩ := r
      rw [transcript_cons spec hfirst, Option.map_eq_some_iff] at hspec
      obtain ⟨⟨t₂, tail⟩, htail, heq⟩ := hspec
      cases heq
      obtain ⟨s₁, hs₁, hrel⟩ := hstep rest.length s t op t₁ answer h hfirst
      obtain ⟨s', hs', hend⟩ := ih hrel htail
      exact ⟨s', by rw [transcript_cons step hs₁, hs']; rfl, hend⟩

end Machine
