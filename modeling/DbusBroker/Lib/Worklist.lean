import Mathlib.Logic.Hydra

/-!
# Work that makes more work

A queue of ranks from which the first one is taken, and behind which any number of smaller ones are put. This
cannot go on for ever, however many there are.
-/

universe u

namespace DbusBroker.Worklist

/-- The first rank of a queue is taken and smaller ones come behind the others. -/
def Shrinks (queue' queue : List ℕ) : Prop :=
  ∃ first rest more, queue = first :: rest ∧ queue' = rest ++ more ∧ ∀ rank ∈ more, rank < first

/-- A rank is replaced by smaller ones. -/
theorem Shrinks.cutExpand {queue queue' : List ℕ} (h : Shrinks queue' queue) :
    Relation.CutExpand (· < ·) (queue' : Multiset ℕ) (queue : Multiset ℕ) := by
  obtain ⟨first, rest, more, rfl, rfl, hless⟩ := h
  refine ⟨(more : Multiset ℕ), first, fun rank hrank => hless rank (Multiset.mem_coe.mp hrank), ?_⟩
  rw [← Multiset.cons_coe, ← Multiset.coe_add, ← Multiset.singleton_add, add_right_comm, add_comm (rest : Multiset ℕ)]

/-- Queues cannot shrink for ever. -/
theorem wellFounded_shrinks : WellFounded Shrinks :=
  Subrelation.wf Shrinks.cutExpand (InvImage.wf (fun queue : List ℕ => (queue : Multiset ℕ)) wellFounded_lt.cutExpand)

/-- What holds of a state if it holds of all states with a smaller queue holds of all states. -/
theorem induction {σ : Type u} (queue : σ → List ℕ) {P : σ → Prop}
    (step : ∀ s, (∀ s', Shrinks (queue s') (queue s) → P s') → P s) (s : σ) : P s :=
  (InvImage.wf queue wellFounded_shrinks).induction s step

end DbusBroker.Worklist
