import CometBFT.Types.Overflow

/-!
# The window of the priorities

`RescalePriorities` should bring the difference between the highest and the lowest priority under a
bound, and `UpdateWithChangeSet` leaves the priorities within twice the total power and centred. Both
hold as long as the number by which the priorities are divided is computed without overflow: where
`diff + diffMax - 1` is above 64 bits, the ratio is negative, which turns the priorities around and
leaves the window too wide.

## Main results

* `rescale_overflow` — rescaling with overflow narrows no window or reverses the order
* `window_and_centring` — exactly when rescaling narrows the window and keeps the order, and the
  window after a change in a run without overflow
* `window_reversed` — a window that is not narrowed, with the order reversed
-/

namespace CometBFT.Types

open Validators List Overflow Validator

variable {diffMax : ℤ}

/-- The numbers of `RescalePriorities` are within 64 bits; the ratio is not used where the window is
narrow enough. -/
def RescaleFits (diffMax : ℤ) (vals : List Validator) : Prop :=
  spread vals ≤ diffMax ∨ spread vals + diffMax - 1 ≤ maxInt64

/-- Rescaling is a monotone function of the priority, and narrows the window. -/
theorem rescale_window {vals : List Validator} (hne : vals ≠ []) (hpos : 0 < diffMax)
    (hprio : ∀ v ∈ vals, Fits64 v.proposerPriority) (hspread : Fits64 (spread vals))
    (hfits : RescaleFits diffMax vals) :
    ∃ vals' f, rescalePriorities diffMax vals = .ok vals' ∧ spread vals' ≤ diffMax ∧ Monotone f ∧
      vals' = vals.map fun v => v.withPriority (f v.proposerPriority) := by
  rcases hfits with hle | hfits
  · exact ⟨vals, id, rescalePriorities_of_le hne hspread hle, hle, monotone_id,
      (map_id vals).symm⟩
  · obtain ⟨r, hr, -, heq⟩ := rescalePriorities_eq hne hpos hprio hfits
    obtain ⟨vals', heq', -, -, hle⟩ := rescalePriorities_spec hne hpos hprio le_rfl (by decide) le_rfl
      (by decide) hfits
    obtain rfl := Except.ok.inj (heq.symm.trans heq')
    exact ⟨_, _, heq, hle, fun _ _ hab => Int.tdiv_le_tdiv hr hab, rfl⟩

/-- Numbers that are far enough apart have different quotients. -/
theorem tdiv_lt_tdiv_of_far {a b k : ℤ} (hk : 0 < k) (h : 2 * k - 2 < a - b) :
    b.tdiv k < a.tdiv k := by
  by_contra hle
  have ha := Int.mul_tdiv_add_tmod a k
  have hb := Int.mul_tdiv_add_tmod b k
  have hra := Int.tmod_lt_of_pos a hk
  have hrb := Int.lt_tmod_of_pos b hk
  have hmul := mul_le_mul_of_nonneg_left (not_lt.mp hle) hk.le
  omega

/-- A negative ratio is small against the window. -/
theorem ratio_lt_spread {d k : ℤ} (hk : 0 < k) (hpos : 0 < diffMax) (hlt : diffMax < d)
    (hfits : d ≤ maxInt64) (hover : maxInt64 < d + diffMax - 1)
    (hmul : k * diffMax ≤ 2 ^ 64 - (d + diffMax - 1)) : 2 * k - 2 < d := by
  have hmax := maxInt64_eq
  rcases (by omega : diffMax = 2 ∨ diffMax = 3 ∨ 4 ≤ diffMax) with rfl | rfl | hge
  · omega
  · omega
  · have := mul_le_mul_of_nonneg_left hge hk.le
    omega

/-- **Rescaling with overflow** fails, leaves the window too wide, or is not monotone: the ratio is
negative or zero. -/
theorem rescale_overflow {vals vals' : List Validator} {f : ℤ → ℤ} (hne : vals ≠ [])
    (hpos : 0 < diffMax) (hprio : ∀ v ∈ vals, Fits64 v.proposerPriority)
    (hspread : Fits64 (spread vals)) (hfits : ¬RescaleFits diffMax vals)
    (hok : rescalePriorities diffMax vals = .ok vals') (hmono : Monotone f)
    (heq : vals' = vals.map fun v => v.withPriority (f v.proposerPriority)) :
    diffMax < spread vals' := by
  have hmax := maxInt64_eq
  have hmin := minInt64_eq
  obtain ⟨hlt, hover⟩ := not_or.mp hfits
  rw [not_le] at hlt hover
  have hratio : (wrap64 (wrap64 (spread vals + diffMax) - 1)).tdiv diffMax =
      -((2 ^ 64 - (spread vals + diffMax - 1)) / diffMax) := by
    have hw : wrap64 (wrap64 (spread vals + diffMax) - 1) =
        -(2 ^ 64 - (spread vals + diffMax - 1)) := by
      have := hspread.2
      unfold wrap64
      omega
    rw [hw, Int.neg_tdiv, Int.tdiv_eq_ediv_of_nonneg (by have := hspread.2; omega)]
  have hmul := Int.ediv_mul_le (2 ^ 64 - (spread vals + diffMax - 1)) hpos.ne'
  have hnonneg : 0 ≤ (2 ^ 64 - (spread vals + diffMax - 1)) / diffMax :=
    Int.ediv_nonneg (by have := hspread.2; omega) hpos.le
  generalize (2 ^ 64 - (spread vals + diffMax - 1)) / diffMax = k at hratio hmul hnonneg
  unfold rescalePriorities at hok
  rw [if_neg hne, if_neg (by omega), computeMaxMinPriorityDiff_eq hne hspread] at hok
  dsimp only at hok
  rw [hratio, if_pos hlt] at hok
  split at hok
  · cases hok
  rename_i hzero
  have hk : 0 < k := by omega
  have hf : ∀ v ∈ vals, f v.proposerPriority = wrap64 (-v.proposerPriority.tdiv k) := by
    intro v hv
    have := map_inj_left.mp (heq.symm.trans (Except.ok.inj hok).symm) v hv
    rw [← Int.tdiv_neg]
    exact congrArg proposerPriority this
  obtain ⟨u, hu, humax⟩ := exists_maxPriority hne hprio
  obtain ⟨v, hv, hvmin⟩ := exists_minPriority hne hprio
  have hd : u.proposerPriority - v.proposerPriority = spread vals := by rw [humax, hvmin]; rfl
  have huf := (hprio u hu).2
  have hvf := (hprio v hv).1
  by_cases hwrap : k = 1 ∧ v.proposerPriority = minInt64
  · -- the negation of the lowest priority wraps around to itself
    obtain ⟨rfl, hvp⟩ := hwrap
    have hule := le_maxPriority (heq ▸ mem_map_of_mem hu :
      u.withPriority (f u.proposerPriority) ∈ vals')
    have hvle := minPriority_le (heq ▸ mem_map_of_mem hv :
      v.withPriority (f v.proposerPriority) ∈ vals')
    simp only [withPriority_proposerPriority, hf u hu, hf v hv, Int.tdiv_one, wrap64] at hule hvle
    have := hspread.2
    unfold spread
    omega
  · have hlow : -maxInt64 ≤ v.proposerPriority.tdiv k := by
      by_cases hk1 : k = 1
      · rw [hk1, Int.tdiv_one]
        have : v.proposerPriority ≠ minInt64 := fun h => hwrap ⟨hk1, h⟩
        omega
      · have h₁ := Int.mul_tdiv_add_tmod v.proposerPriority k
        have h₂ := Int.tmod_lt_of_pos v.proposerPriority hk
        have h₃ := Int.lt_tmod_of_pos v.proposerPriority hk
        by_contra hle
        have := mul_le_mul_of_nonneg_left
          (show v.proposerPriority.tdiv k ≤ -9223372036854775808 by omega) hk.le
        omega
    have hfar := tdiv_lt_tdiv_of_far hk (hd ▸ ratio_lt_spread hk hpos hlt hspread.2 hover hmul)
    have hhigh := (tdiv_mem hk (by omega) (by omega) (hprio u hu)).2
    have hle := hmono (show v.proposerPriority ≤ u.proposerPriority by omega)
    rw [hf u hu, hf v hv, wrap64_of_fits ⟨by omega, by omega⟩,
      wrap64_of_fits ⟨by omega, by omega⟩] at hle
    omega

/-- **Window and centring.** Rescaling narrows the window to `diffMax` and reverses no two priorities
exactly if its numbers are within 64 bits; and in every run from `NewValidatorSet` in which no call
lets a priority climb too far, a change that succeeds leaves the priorities within twice the total
power, with a sum from zero to the number of validators. -/
theorem window_and_centring (vals : List Validator) (diffMax : ℤ) :
    (vals ≠ [] → 0 < diffMax → (∀ v ∈ vals, Fits64 v.proposerPriority) → Fits64 (spread vals) →
      ((∃ vals' f, rescalePriorities diffMax vals = .ok vals' ∧ spread vals' ≤ diffMax ∧ Monotone f ∧
        vals' = vals.map fun v => v.withPriority (f v.proposerPriority)) ↔
          RescaleFits diffMax vals)) ∧
    ∀ valz s vals changes vals', newValidatorSet valz = .ok s →
      Steps next (fun vals c => c.Moderate vals) s vals → changes ≠ [] →
      vals.updateWithChangeSet changes true = .ok vals' →
      spread vals'.validators ≤ 2 * vals'.totalVotingPower ∧
        0 ≤ prioritySum vals'.validators ∧
        prioritySum vals'.validators < vals'.validators.length := by
  refine ⟨fun hne hpos hprio hspread => ⟨?_, rescale_window hne hpos hprio hspread⟩, ?_⟩
  · rintro ⟨vals', f, hok, hle, hmono, heq⟩
    by_contra hfits
    exact absurd hle (not_le.mpr (rescale_overflow hne hpos hprio hspread hfits hok hmono heq))
  intro valz s vals changes vals' hnew hrun hne hok
  obtain ⟨-, hsound, hne', hwindow⟩ :=
    (steps_sound (newValidatorSet_sound hnew).2 hrun).update hne hok
  rw [hsound.total]
  exact ⟨hwindow, hsound.centred hne'⟩

/-- Two validators of the same power with these priorities. -/
def atPriorities (x y : ℤ) : List Validator := [⟨[1], none, 1, x⟩, ⟨[2], none, 1, y⟩]

/-- One priority at each end of the window, and the second change of a set. -/
theorem window_and_centring_two :
    (∃ vals' f, rescalePriorities 3 (atPriorities 5 (-5)) = .ok vals' ∧ spread vals' ≤ 3 ∧
      Monotone f ∧ vals' = (atPriorities 5 (-5)).map fun v => v.withPriority (f v.proposerPriority)) ∧
    ∃ vals', pair.updateWithChangeSet [⟨[3], none, 2, 0⟩] true = .ok vals' ∧
      spread vals'.validators ≤ 2 * vals'.totalVotingPower := by
  refine ⟨((window_and_centring (atPriorities 5 (-5)) 3).1 (by decide) (by decide) (by decide)
    (by decide)).mpr (.inr (by decide)), ?_⟩
  have hnew : newValidatorSet [⟨[1], none, 3, 0⟩, ⟨[2], none, 1, 0⟩] = .ok pair := by rfl
  exact ⟨_, rfl, ((window_and_centring [] 0).2 _ pair pair [⟨[3], none, 2, 0⟩] _ hnew (.refl _) (by decide)
    rfl).1⟩

/-- Whether a change succeeds and leaves a window wider than twice the total power. -/
def widens (vals : ValidatorSet) (changes : List Validator) : Bool :=
  match vals.updateWithChangeSet changes true with
  | .error _ => false
  | .ok vals' => 2 * vals'.totalVotingPower < spread vals'.validators

theorem exists_of_widens {vals : ValidatorSet} {changes : List Validator}
    (h : widens vals changes = true) : ∃ vals', vals.updateWithChangeSet changes true = .ok vals' ∧
      2 * vals'.totalVotingPower < spread vals'.validators := by
  unfold widens at h
  cases hok : vals.updateWithChangeSet changes true with
  | error e =>
    rw [hok] at h
    cases h
  | ok vals' =>
    rw [hok] at h
    exact ⟨vals', rfl, of_decide_eq_true h⟩

/-- **The window is not narrowed**, and the order is reversed: the difference is within 64 bits, and
its sum with `diffMax` is not. In the run with many increments, a change leaves a window wider than
twice the total power. -/
theorem window_reversed :
    (∃ vals', rescalePriorities (2 ^ 62) (atPriorities (2 ^ 62) (-2 ^ 62 + 1)) = .ok vals' ∧
      Fits64 (spread (atPriorities (2 ^ 62) (-2 ^ 62 + 1))) ∧
      vals' = atPriorities (-2 ^ 62) (2 ^ 62 - 1) ∧ 2 ^ 62 < spread vals') ∧
    ∃ valz s vals changes vals', newValidatorSet valz = .ok s ∧ Reachable next s vals ∧
      changes ≠ [] ∧ vals.updateWithChangeSet changes true = .ok vals' ∧
      2 * vals'.totalVotingPower < spread vals'.validators := by
  refine ⟨⟨_, rfl, by decide, by decide, by decide⟩, ?_⟩
  obtain ⟨p, hreach⟩ := reachable_after
  have hwide : widens (setOf after none) takeover = true := by
    decide +kernel
  obtain ⟨vals', hok, hlt⟩ := exists_of_widens hwide
  have hok' := updateWithChangeSet_proposer (cons_ne_nil _ _) p hok
  exact ⟨_, _, _, _, { vals' with proposer := p }, evaluation.1, hreach,
    cons_ne_nil _ _, hok', hlt⟩

end CometBFT.Types
