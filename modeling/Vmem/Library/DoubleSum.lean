import Mathlib.Algebra.BigOperators.Group.List.Basic

/-!
# Double sums

A pair of sums runs along a sequence of terms: the first adds up the terms, the second
adds up the values of the first.  Fletcher checksums are such pairs.
-/

namespace Vmem
namespace DoubleSum

variable {α : Type} [AddCommMonoid α] {sums : α × α} {terms : List α}

/-- One more term. -/
def step (sums : α × α) (term : α) : α × α := (sums.1 + term, sums.2 + (sums.1 + term))

/-- Both sums at the end of a sequence. -/
def run (sums : α × α) (terms : List α) : α × α := terms.foldl step sums

@[simp] theorem run_nil (sums : α × α) : run sums [] = sums := rfl

@[simp] theorem run_cons (sums : α × α) (term : α) (terms : List α) :
    run sums (term :: terms) = run (step sums term) terms := rfl

/-- A sequence can be interrupted. -/
theorem run_append (sums : α × α) (first second : List α) :
    run sums (first ++ second) = run (run sums first) second := List.foldl_append

/-- The first sum does not depend on the order. -/
theorem run_fst (sums : α × α) (terms : List α) : (run sums terms).1 = sums.1 + terms.sum := by
  induction terms generalizing sums with
  | nil => simp
  | cons term terms inductionHypothesis =>
      rw [run_cons, inductionHypothesis, List.sum_cons, ← add_assoc]
      rfl

/-- A zero adds the first sum to the second once more. -/
theorem step_zero (sums : α × α) : step sums 0 = (sums.1, sums.2 + sums.1) := by
  simp [step]

end DoubleSum
end Vmem
