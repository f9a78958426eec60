import Mathlib.Data.Nat.Notation

/-!
# Loops

A loop is a step function on the values of its variables: an iteration goes on with new values or
ends with a result. `Loop.run` performs a bounded number of iterations.

## Main results

* `Loop.exists_run_eq_some` — the termination rule: enough iterations end the loop
* `Loop.of_run_eq_some` — the invariant rule: the result is that of an iteration from values that
  satisfy the invariant
-/

namespace CometBFT

universe u v

/-- What an iteration does. -/
inductive Iteration (σ : Type u) (ρ : Type v) where
  | next (s : σ)
  | done (r : ρ)

namespace Loop

variable {σ : Type u} {ρ : Type v} {step : σ → Iteration σ ρ} {I : σ → Prop} {fuel : ℕ} {s : σ}
  {r : ρ}

/-- The result after at most `fuel` iterations; none if the loop has not ended by then. -/
def run (step : σ → Iteration σ ρ) : ℕ → σ → Option ρ
  | 0, _ => none
  | fuel + 1, s =>
    match step s with
    | .done r => some r
    | .next s => run step fuel s

theorem run_of_done (h : step s = .done r) : run step (fuel + 1) s = some r := by
  rw [run, h]

theorem run_of_next {t : σ} (h : step s = .next t) : run step (fuel + 1) s = run step fuel t := by
  rw [run, h]

/-- **The termination rule.** If an invariant is kept and a measure goes down, the loop ends. -/
theorem exists_run_eq_some {μ : σ → ℕ}
    (hstep : ∀ s t, I s → step s = .next t → I t ∧ μ t < μ s) (h0 : I s) (hfuel : μ s < fuel) :
    ∃ r, run step fuel s = some r := by
  induction fuel generalizing s with
  | zero => exact absurd hfuel (Nat.not_lt_zero _)
  | succ fuel ih =>
    cases hs : step s with
    | done r => exact ⟨r, run_of_done hs⟩
    | next t =>
      obtain ⟨ht, hlt⟩ := hstep s t h0 hs
      rw [run_of_next hs]
      exact ih ht (Nat.lt_of_lt_of_le hlt (Nat.le_of_lt_succ hfuel))

/-- **The invariant rule.** -/
theorem of_run_eq_some (hstep : ∀ s t, I s → step s = .next t → I t) (h0 : I s)
    (h : run step fuel s = some r) : ∃ t, I t ∧ step t = .done r := by
  induction fuel generalizing s with
  | zero => cases h
  | succ fuel ih =>
    cases hs : step s with
    | done r' =>
      rw [run_of_done hs] at h
      exact ⟨s, h0, Option.some.inj h ▸ hs⟩
    | next t =>
      rw [run_of_next hs] at h
      exact ih (hstep s t h0 hs) h

end Loop

end CometBFT
