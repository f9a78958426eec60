import Mathlib.Algebra.Order.Group.Int
import Mathlib.Tactic.Common

/-!
# Sequences that are stored sparsely

A value is known for every height. It is written down in full only where it changed, and at the
multiples of an interval; elsewhere it is found from the last height where it was. `c` is the last
height at which the value changed.

## Main results

* `full_lastStored` — there is something to be found
* `lastStored_of_mem` — all heights from there on find the same
* `not_full_of_mem` — and nothing is stored in between
* `lastStored_succ` — the next height is stored itself or finds the same
* `Ordered.le_or_eq` — what a later height finds is not older than what an earlier one finds
-/

namespace CometBFT.Checkpoint

variable {interval h j k c : ℤ}

/-- The last height up to `h` where the value is stored. -/
def lastStored (interval h c : ℤ) : ℤ := max (h - h % interval) c

/-- Whether the value is stored at `h`. -/
def Full (interval h c : ℤ) : Prop := h = c ∨ h % interval = 0

instance : Decidable (Full interval h c) := inferInstanceAs (Decidable (_ ∨ _))

theorem le_lastStored (interval h c : ℤ) : c ≤ lastStored interval h c := le_max_right _ _

theorem lastStored_le (hi : 0 < interval) (hc : c ≤ h) : lastStored interval h c ≤ h := by
  have := Int.emod_nonneg h hi.ne'
  exact max_le (by omega) hc

theorem full_lastStored (interval h c : ℤ) : Full interval (lastStored interval h c) c := by
  rcases max_choice (h - h % interval) c with hmax | hmax
  · refine .inr ?_
    rw [lastStored, hmax]
    exact Int.emod_eq_zero_of_dvd (Int.dvd_self_sub_emod)
  · exact .inl hmax

/-- Between two multiples of the interval there is none. -/
theorem emod_ne_zero (hi : 0 < interval) (hlo : h - h % interval < k) (hhi : k ≤ h) :
    k % interval ≠ 0 := by
  intro hk
  have hdvd : interval ∣ k - (h - h % interval) :=
    Int.dvd_sub (Int.dvd_of_emod_eq_zero hk) Int.dvd_self_sub_emod
  have hlt := Int.emod_lt_of_pos h hi
  have := Int.le_of_dvd (by omega) hdvd
  omega

/-- Nothing is stored in between. -/
theorem not_full_of_mem (hi : 0 < interval) (hlo : lastStored interval h c < k) (hhi : k ≤ h) :
    ¬Full interval k c := by
  obtain ⟨hcp, hc⟩ := max_lt_iff.mp hlo
  rintro (rfl | hk)
  · exact hc.false
  · exact emod_ne_zero hi hcp hhi hk

theorem lastStored_of_mem (hi : 0 < interval) (hlo : lastStored interval h c ≤ k) (hhi : k ≤ h) :
    lastStored interval k c = lastStored interval h c := by
  have hc : c ≤ k := (le_lastStored interval h c).trans hlo
  refine le_antisymm ?_ ?_
  · by_contra hlt
    refine not_full_of_mem hi (not_le.mp hlt) ((lastStored_le hi hc).trans hhi) ?_
    exact full_lastStored interval k c
  · by_contra hlt
    refine not_full_of_mem hi (not_le.mp hlt) hlo ?_
    exact full_lastStored interval h c

theorem lastStored_of_full (hi : 0 < interval) (hc : c ≤ h) (hfull : Full interval h c) :
    lastStored interval h c = h := by
  refine le_antisymm (lastStored_le hi hc) ?_
  by_contra hlt
  exact not_full_of_mem hi (not_le.mp hlt) le_rfl hfull

/-- The next height is stored itself, or finds what this one finds. -/
theorem lastStored_succ (hi : 0 < interval) (hc : c ≤ h) (hfull : ¬Full interval (h + 1) c) :
    lastStored interval (h + 1) c = lastStored interval h c := by
  have hle := lastStored_le hi (hc.trans (by omega : h ≤ h + 1))
  have hne : lastStored interval (h + 1) c ≠ h + 1 := by
    intro heq
    exact hfull (heq ▸ full_lastStored interval (h + 1) c)
  exact (lastStored_of_mem hi (by omega) (by omega)).symm

/-! ### The last changes -/

/-- `changed` has, for the heights from `lo` to `hi`, the height of the last change. -/
def Ordered (changed : ℤ → Option ℤ) (lo hi : ℤ) : Prop :=
  ∀ k h c c', lo ≤ k → k ≤ h → h ≤ hi → changed k = some c → changed h = some c' → c' = c ∨ k < c'

variable {changed changed' : ℤ → Option ℤ} {lo lo' hi : ℤ}

theorem ordered_self (changed : ℤ → Option ℤ) (lo : ℤ) : Ordered changed lo lo := by
  intro k j c c' hk hkj hj hc hc'
  obtain rfl : k = j := by omega
  exact .inl (Option.some.inj (hc'.symm.trans hc))

theorem Ordered.mono (h : Ordered changed lo hi) (hlo : lo ≤ lo')
    (hsame : ∀ k, lo' ≤ k → k ≤ hi → changed' k = changed k) : Ordered changed' lo' hi := by
  intro k j c c' hk hkj hj hc hc'
  rw [hsame k hk (hkj.trans hj)] at hc
  rw [hsame j (hk.trans hkj) hj] at hc'
  exact h k j c c' (hlo.trans hk) hkj hj hc hc'

/-- The next height: nothing changes, or the value changes there. -/
theorem Ordered.succ (h : Ordered changed lo hi)
    (hsame : ∀ k ≤ hi, changed' k = changed k)
    (hnew : changed' (hi + 1) = changed hi ∨ changed' (hi + 1) = some (hi + 1)) :
    Ordered changed' lo (hi + 1) := by
  intro k j c c' hk hkj hj hc hc'
  rcases eq_or_lt_of_le hj with rfl | hlt
  · rcases eq_or_lt_of_le hkj with rfl | hlt
    · exact .inl (Option.some.inj (hc'.symm.trans hc))
    · rw [hsame k (by omega)] at hc
      rcases hnew with hnew | hnew
      · exact h k hi c c' hk (by omega) le_rfl hc (hnew.symm.trans hc')
      · obtain rfl : hi + 1 = c' := Option.some.inj (hnew.symm.trans hc')
        exact .inr hlt
  · rw [hsame k (by omega)] at hc
    rw [hsame j (by omega)] at hc'
    exact h k j c c' hk hkj (by omega) hc hc'

/-- A height that is the last change of a later one is its own. -/
theorem Ordered.eq_self (h : Ordered changed lo hi) (hlo : lo ≤ c) (hc : c ≤ k) (hk : k ≤ hi)
    {d : ℤ} (hchanged : changed k = some c) (hd : changed c = some d) : d = c :=
  (h c k d c hlo hc hk hd hchanged).elim Eq.symm fun hlt => absurd hlt (lt_irrefl c)

/-- What a later height finds is not before `k`, or is what `k` finds. -/
theorem Ordered.le_or_eq (hi0 : 0 < interval) {d : ℤ} (h : Ordered changed lo hi) (hlo : lo ≤ k)
    (hkj : k ≤ j) (hj : j ≤ hi) (hc : changed k = some c) (hd : changed j = some d) :
    k ≤ lastStored interval j d ∨ lastStored interval j d = lastStored interval k c := by
  rcases h k j c d hlo hkj hj hc hd with rfl | hlt
  · by_cases hle : k ≤ lastStored interval j d
    · exact .inl hle
    · exact .inr (lastStored_of_mem hi0 (not_le.mp hle).le hkj).symm
  · exact .inl (hlt.le.trans (le_lastStored interval j d))

end CometBFT.Checkpoint
