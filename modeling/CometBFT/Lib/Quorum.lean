import Mathlib.Algebra.Order.BigOperators.Group.Finset
import Mathlib.Tactic.Linarith

/-!
# Weighted quorums

Voters of a finite set `s` have weights. A quorum is a set of voters with more than two thirds of
the weight of `s`.

## Main results

* `Quorum.inter` — two quorums share voters with more than a third of the weight
* `Quorum.exists_common` — and so a voter of both
* `two_thirds_lt_iff` — the threshold as integers compute it
-/

namespace CometBFT

variable {ι : Type*} {s A B : Finset ι} {w : ι → ℤ}

/-- The weight of a set of voters. -/
def weight (w : ι → ℤ) (A : Finset ι) : ℤ := ∑ i ∈ A, w i

/-- More than two thirds of the weight of `s`. -/
structure Quorum (s : Finset ι) (w : ι → ℤ) (A : Finset ι) : Prop where
  subset : A ⊆ s
  two_thirds : 2 * weight w s < 3 * weight w A

theorem weight_mono (hw : ∀ i ∈ B, 0 ≤ w i) (h : A ⊆ B) : weight w A ≤ weight w B :=
  Finset.sum_le_sum_of_subset_of_nonneg h fun i hi _ => hw i hi

theorem weight_nonneg (hw : ∀ i ∈ A, 0 ≤ w i) : 0 ≤ weight w A := Finset.sum_nonneg hw

/-- A larger set of voters is still a quorum. -/
theorem Quorum.mono (h : Quorum s w A) (hw : ∀ i ∈ s, 0 ≤ w i) (hAB : A ⊆ B) (hB : B ⊆ s) :
    Quorum s w B := by
  have hle := weight_mono (fun i hi => hw i (hB hi)) hAB
  have := h.two_thirds
  exact ⟨hB, by omega⟩

/-- `2 * total / 3 + 1` votes are more than two thirds, and nothing less is. -/
theorem two_thirds_lt_iff {total x : ℤ} : total * 2 / 3 + 1 ≤ x ↔ 2 * total < 3 * x := by
  omega

variable [DecidableEq ι]

theorem weight_union_add_inter (w : ι → ℤ) (A B : Finset ι) :
    weight w (A ∪ B) + weight w (A ∩ B) = weight w A + weight w B :=
  Finset.sum_union_inter

/-- **Two quorums share** voters with more than a third of the weight. -/
theorem Quorum.inter (hA : Quorum s w A) (hB : Quorum s w B) (hw : ∀ i ∈ s, 0 ≤ w i) :
    weight w s < 3 * weight w (A ∩ B) := by
  have hunion := weight_mono hw (Finset.union_subset hA.subset hB.subset)
  have hsum := weight_union_add_inter w A B
  have h₁ := hA.two_thirds
  have h₂ := hB.two_thirds
  omega

theorem Quorum.exists_common (hA : Quorum s w A) (hB : Quorum s w B) (hw : ∀ i ∈ s, 0 ≤ w i) :
    ∃ i ∈ A, i ∈ B := by
  have hlt := hA.inter hB hw
  have hnonneg := weight_nonneg hw
  obtain ⟨i, hi⟩ : (A ∩ B).Nonempty := by
    by_contra hempty
    rw [Finset.not_nonempty_iff_eq_empty.mp hempty] at hlt
    change weight w s < 3 * 0 at hlt
    omega
  exact ⟨i, Finset.mem_inter.mp hi⟩

end CometBFT
