import Mathlib.NumberTheory.Harmonic.Defs
import Mathlib.Tactic

/-!
# Weighted rotation

Each candidate `i` of a finite set `s` has a weight `w i` and a priority `p i`. An election raises
every priority by its weight, elects one of those that are then highest, and lowers the elected one
by the sum of all weights. The rule that breaks ties is left open: everything here holds for every
choice among the highest.

## Main results

* `Run.sum_eq` — elections do not change the sum of the priorities
* `Run.balance` — a priority, from the weight and the number of times elected
* `Run.lower` — no priority falls below `1 - ∑ w`, unless it was there
* `Run.fair` — from zero, after `∑ w` elections everyone was elected as often as their weight says,
  and all priorities are back at zero
* `Run.upper_length`, `Run.upper_log` — how far a priority can climb: by one total weight in each
  election, and by `log₂` of the number of candidates total weights in any number of them
-/

namespace CometBFT.Rotation

open Finset

variable {ι : Type*} {s : Finset ι} {w p q : ι → ℤ} {k : ι} {ks : List ι}

/-- One election: `k` is elected at priorities `p`, which leaves priorities `q`. -/
structure Elects (s : Finset ι) (w p : ι → ℤ) (k : ι) (q : ι → ℤ) : Prop where
  mem : k ∈ s
  top : ∀ i ∈ s, p i + w i ≤ p k + w k
  elected : q k = p k + w k - ∑ i ∈ s, w i
  others : ∀ i ∈ s, i ≠ k → q i = p i + w i

/-- Elections one after the other, with the list of those elected. -/
inductive Run (s : Finset ι) (w p : ι → ℤ) : List ι → (ι → ℤ) → Prop where
  | nil : Run s w p [] p
  | snoc {q r : ι → ℤ} {ks : List ι} {k : ι} (hrun : Run s w p ks q) (he : Elects s w q k r) :
      Run s w p (ks ++ [k]) r

/-! ### What one election does -/

/-- The elected candidate is above zero before it pays: the priorities sum up to something
positive, and it has the highest. -/
theorem Elects.one_le (h : Elects s w p k q) (hw : ∀ i ∈ s, 0 < w i) (hp : 0 ≤ ∑ i ∈ s, p i) :
    1 ≤ p k + w k := by
  by_contra hlt
  have hle : ∑ i ∈ s, (p i + w i) ≤ 0 :=
    sum_nonpos fun i hi => (h.top i hi).trans (by omega)
  have hpos : 0 < ∑ i ∈ s, w i := sum_pos hw ⟨k, h.mem⟩
  rw [sum_add_distrib] at hle
  omega

theorem Run.mem (h : Run s w p ks q) : ∀ k ∈ ks, k ∈ s := by
  induction h with
  | nil => exact nofun
  | snoc _ he ih =>
    intro k hk
    rcases List.mem_append.mp hk with hk | hk
    · exact ih k hk
    · exact List.mem_singleton.mp hk ▸ he.mem

/-- The bound that elections keep: the mean priority of `m` candidates is at most `M`, plus the
total weight times the reciprocals of the numbers from `m + 1` up to the number of candidates. -/
def Levelled (s : Finset ι) (w : ι → ℤ) (M : ℤ) (p : ι → ℤ) : Prop :=
  ∀ S ⊆ s, ((∑ i ∈ S, p i : ℤ) : ℚ) ≤
    S.card * (M + (∑ i ∈ s, w i : ℤ) * (harmonic s.card - harmonic S.card))

theorem harmonic_mono {m n : ℕ} (h : m ≤ n) : harmonic m ≤ harmonic n := by
  refine sum_le_sum_of_subset_of_nonneg (range_mono h) fun i _ _ => ?_
  positivity

variable {M : ℤ} {i : ι}

theorem levelled_of_le (hw : ∀ i ∈ s, 0 < w i) (hM : ∀ i ∈ s, p i ≤ M) :
    Levelled s w M p := by
  intro S hS
  have hle : ∑ i ∈ S, p i ≤ S.card * M := by
    simpa using sum_le_card_nsmul S p M fun i hi => hM i (hS hi)
  have hT : (0 : ℚ) ≤ (∑ i ∈ s, w i : ℤ) := by
    exact_mod_cast sum_nonneg fun i hi => (hw i hi).le
  have hH : 0 ≤ harmonic s.card - harmonic S.card :=
    sub_nonneg.mpr (harmonic_mono (card_le_card hS))
  calc ((∑ i ∈ S, p i : ℤ) : ℚ) ≤ S.card * M := by exact_mod_cast hle
    _ ≤ _ := by
      refine mul_le_mul_of_nonneg_left ?_ (Nat.cast_nonneg _)
      exact le_add_of_nonneg_right (mul_nonneg hT hH)

/-- Runs one after the other. -/
theorem Run.append {ks' : List ι} {r : ι → ℤ} (h : Run s w p ks q) (h' : Run s w q ks' r) :
    Run s w p (ks ++ ks') r := by
  induction h' with
  | nil => rwa [List.append_nil]
  | snoc _ he ih =>
    rw [← List.append_assoc]
    exact ih.snoc he

variable [DecidableEq ι]

theorem Elects.eq (h : Elects s w p k q) (hi : i ∈ s) :
    q i = p i + w i - if i = k then ∑ j ∈ s, w j else 0 := by
  by_cases hik : i = k
  · rw [if_pos hik, hik, h.elected]
  · rw [if_neg hik, h.others i hi hik, sub_zero]

theorem Elects.sum_eq (h : Elects s w p k q) : ∑ i ∈ s, q i = ∑ i ∈ s, p i := by
  rw [sum_congr rfl fun i hi => h.eq hi, sum_sub_distrib, sum_add_distrib,
    sum_ite_eq' s k fun _ => ∑ j ∈ s, w j, if_pos h.mem]
  ring

theorem Elects.lower (h : Elects s w p k q) (hw : ∀ i ∈ s, 0 < w i) (hp : 0 ≤ ∑ i ∈ s, p i)
    (hi : i ∈ s) : min (p i) (1 - ∑ j ∈ s, w j) ≤ q i := by
  by_cases hik : i = k
  · have h1 := h.one_le hw hp
    rw [hik, h.elected]
    exact (min_le_right _ _).trans (by omega)
  · rw [h.others i hi hik]
    exact (min_le_left _ _).trans (by have := hw i hi; omega)

/-! ### What a run does -/

theorem Run.sum_eq (h : Run s w p ks q) : ∑ i ∈ s, q i = ∑ i ∈ s, p i := by
  induction h with
  | nil => rfl
  | snoc _ he ih => rw [he.sum_eq, ih]

/-- A priority is where it started, plus the weight for each election, minus the total weight for
each time it was elected. -/
theorem Run.balance (h : Run s w p ks q) (hi : i ∈ s) :
    q i = p i + ks.length * w i - ks.count i * ∑ j ∈ s, w j := by
  induction h with
  | nil => simp
  | @snoc q r ks k _ he ih =>
    rw [he.eq hi, ih, List.length_append, List.count_append, List.count_singleton']
    by_cases hik : k = i
    · rw [if_pos hik.symm, if_pos hik]
      push_cast [List.length_singleton]
      ring
    · rw [if_neg (Ne.symm hik), if_neg hik]
      push_cast [List.length_singleton]
      ring

theorem Run.lower (h : Run s w p ks q) (hw : ∀ i ∈ s, 0 < w i) (hp : 0 ≤ ∑ i ∈ s, p i) (hi : i ∈ s) :
    min (p i) (1 - ∑ j ∈ s, w j) ≤ q i := by
  induction h with
  | nil => exact min_le_left _ _
  | snoc hrun he ih =>
    refine le_trans ?_ (he.lower hw (hrun.sum_eq ▸ hp) hi)
    exact le_min ih (min_le_right _ _)

/-- Everyone in `s` is counted once, so that the counts sum up to the length. -/
theorem Run.sum_count (h : Run s w p ks q) : ∑ i ∈ s, ks.count i = ks.length := by
  refine (sum_subset (fun i hi => h.mem i (List.mem_toFinset.mp hi)) ?_).symm.trans
    (List.sum_toFinset_count_eq_length ks)
  intro i _ hi
  exact List.count_eq_zero.mpr fun hmem => hi (List.mem_toFinset.mpr hmem)

/-- **Proportional rotation.** Starting from zero, in as many elections as the weights sum up to
everyone is elected as often as their weight says, and the priorities are zero again. -/
theorem Run.fair (h : Run s w p ks q) (hw : ∀ i ∈ s, 0 < w i) (hp : ∀ i ∈ s, p i = 0)
    (hlen : (ks.length : ℤ) = ∑ i ∈ s, w i) (hi : i ∈ s) :
    (ks.count i : ℤ) = w i ∧ q i = 0 := by
  have hsum : ∑ i ∈ s, p i = 0 := sum_eq_zero hp
  -- a candidate elected too often would be a whole total weight below zero
  have hle : ∀ j ∈ s, (ks.count j : ℤ) ≤ w j := by
    intro j hj
    by_contra hlt
    have hlow := h.lower hw hsum.ge hj
    have hbal := h.balance hj
    have hT : 0 < ∑ j ∈ s, w j := sum_pos hw ⟨j, hj⟩
    have hmin : 1 - ∑ j ∈ s, w j ≤ min (p j) (1 - ∑ j ∈ s, w j) :=
      le_min (by rw [hp j hj]; omega) le_rfl
    have hmul : ((w j + 1) * ∑ j ∈ s, w j) ≤ ks.count j * ∑ j ∈ s, w j :=
      Int.mul_le_mul_of_nonneg_right (by omega) hT.le
    rw [hp j hj, hlen] at hbal
    have hexp : (w j + 1) * ∑ j ∈ s, w j = (∑ j ∈ s, w j) * w j + ∑ j ∈ s, w j := by ring
    omega
  -- the counts and the weights have the same sum, so none can fall short either
  have hcount : ∑ j ∈ s, (ks.count j : ℤ) = ∑ j ∈ s, w j := by
    rw [← hlen, ← h.sum_count]
    push_cast
    rfl
  have heq : (ks.count i : ℤ) = w i := (sum_eq_sum_iff_of_le hle).mp hcount i hi
  refine ⟨heq, ?_⟩
  rw [h.balance hi, hp i hi, hlen, heq]
  ring

/-! ### How far a priority can climb -/

theorem Elects.upper (h : Elects s w p k q) (hw : ∀ i ∈ s, 0 < w i) (hM : ∀ i ∈ s, p i ≤ M)
    (hi : i ∈ s) : q i ≤ M + ∑ j ∈ s, w j := by
  have hle : w i ≤ ∑ j ∈ s, w j := single_le_sum (fun j hj => (hw j hj).le) hi
  have hT : 0 < ∑ j ∈ s, w j := sum_pos hw ⟨i, hi⟩
  have := hM i hi
  rw [h.eq hi]
  split <;> omega

theorem Run.upper_length (h : Run s w p ks q) (hw : ∀ i ∈ s, 0 < w i) (hM : ∀ i ∈ s, p i ≤ M)
    (hi : i ∈ s) : q i ≤ M + ks.length * ∑ j ∈ s, w j := by
  induction h generalizing i with
  | nil => simpa using hM i hi
  | @snoc q r ks k _ he ih =>
    refine (he.upper hw (fun i hi => ih hi) hi).trans (le_of_eq ?_)
    push_cast [List.length_append, List.length_singleton]
    ring

/-- The elected candidate is at least as high as each of `S` before it pays, so that the mean of `S`
is at most the mean of `S` together with it. -/
theorem Elects.sum_mul_le (h : Elects s w p k q) {S : Finset ι} (hS : S ⊆ s) (hk : k ∉ S) :
    (S.card + 1) * ∑ i ∈ S, q i ≤ S.card * ∑ i ∈ insert k S, (p i + w i) := by
  have hq : ∑ i ∈ S, q i = ∑ i ∈ S, (p i + w i) :=
    sum_congr rfl fun i hi => h.others i (hS hi) fun hik => hk (hik ▸ hi)
  have hle : ∑ i ∈ S, (p i + w i) ≤ S.card * (p k + w k) := by
    simpa using sum_le_card_nsmul S (fun i => p i + w i) _ fun i hi => h.top i (hS hi)
  rw [hq, sum_insert hk]
  calc ((S.card : ℤ) + 1) * ∑ i ∈ S, (p i + w i)
      = S.card * ∑ i ∈ S, (p i + w i) + ∑ i ∈ S, (p i + w i) := by ring
    _ ≤ S.card * ∑ i ∈ S, (p i + w i) + S.card * (p k + w k) := by omega
    _ = _ := by ring

theorem Elects.levelled (h : Elects s w p k q) (hw : ∀ i ∈ s, 0 < w i) (hM : Levelled s w M p) :
    Levelled s w M q := by
  intro S hS
  by_cases hk : k ∈ S
  · -- who pays is among them: they pay more than they get together
    refine le_trans ?_ (hM S hS)
    have hq : ∑ i ∈ S, q i = ∑ i ∈ S, p i + ∑ i ∈ S, w i - ∑ i ∈ s, w i := by
      rw [sum_congr rfl fun i hi => h.eq (hS hi), sum_sub_distrib,
        sum_add_distrib, sum_ite_eq' S k fun _ => ∑ j ∈ s, w j, if_pos hk]
    have hle : ∑ i ∈ S, w i ≤ ∑ i ∈ s, w i :=
      sum_le_sum_of_subset_of_nonneg hS fun i hi _ => (hw i hi).le
    exact_mod_cast (show ∑ i ∈ S, q i ≤ ∑ i ∈ S, p i by omega)
  · have hkS : insert k S ⊆ s := insert_subset h.mem hS
    have hcard : (insert k S).card = S.card + 1 := card_insert_of_notMem hk
    have hbound := hM (insert k S) hkS
    have hww : ∑ i ∈ insert k S, w i ≤ ∑ i ∈ s, w i :=
      sum_le_sum_of_subset_of_nonneg hkS fun i hi _ => (hw i hi).le
    have hmul : ((S.card : ℚ) + 1) * (∑ i ∈ S, q i : ℤ) ≤
        S.card * ((∑ i ∈ insert k S, p i : ℤ) + (∑ i ∈ s, w i : ℤ)) := by
      have hsum := h.sum_mul_le hS hk
      rw [sum_add_distrib] at hsum
      have : ((S.card : ℤ) + 1) * ∑ i ∈ S, q i ≤
          S.card * (∑ i ∈ insert k S, p i + ∑ i ∈ s, w i) :=
        hsum.trans (Int.mul_le_mul_of_nonneg_left (by omega) (Int.natCast_nonneg _))
      exact_mod_cast this
    rw [hcard, harmonic_succ] at hbound
    have hpos : (0 : ℚ) < S.card + 1 := by positivity
    refine le_of_mul_le_mul_left (hmul.trans ?_) hpos
    push_cast at hbound ⊢
    calc (S.card : ℚ) * (∑ i ∈ insert k S, (p i : ℚ) + ∑ i ∈ s, (w i : ℚ))
        ≤ S.card * ((S.card + 1) * (M + (∑ i ∈ s, (w i : ℚ)) *
            (harmonic s.card - (harmonic S.card + ((S.card : ℚ) + 1)⁻¹))) +
              ∑ i ∈ s, (w i : ℚ)) := by gcongr
      _ = _ := by field_simp; ring

theorem Run.levelled (h : Run s w p ks q) (hw : ∀ i ∈ s, 0 < w i) (hM : Levelled s w M p) :
    Levelled s w M q := by
  induction h with
  | nil => exact hM
  | snoc _ he ih => exact he.levelled hw ih

/-- Doubling adds at most one to a harmonic number. -/
theorem harmonic_two_mul_le (n : ℕ) : harmonic (2 * n + 1) ≤ harmonic n + 1 := by
  induction n with
  | zero => simp
  | succ n ih =>
    rw [show 2 * (n + 1) + 1 = 2 * n + 1 + 1 + 1 by ring, harmonic_succ, harmonic_succ,
      harmonic_succ n]
    have hle : ((2 * n + 1 + 1 : ℕ) : ℚ)⁻¹ + ((2 * n + 1 + 1 + 1 : ℕ) : ℚ)⁻¹ ≤
        ((n + 1 : ℕ) : ℚ)⁻¹ := by
      have h2 : ((2 * n + 1 + 1 + 1 : ℕ) : ℚ)⁻¹ ≤ ((2 * n + 1 + 1 : ℕ) : ℚ)⁻¹ := by
        gcongr
        omega
      refine (add_le_add_right h2 _).trans (le_of_eq ?_)
      push_cast
      field_simp
      ring
    linarith

theorem harmonic_le_log {n : ℕ} (hn : 0 < n) : harmonic n ≤ 1 + Nat.log 2 n := by
  induction n using Nat.strong_induction_on with
  | _ n ih =>
    by_cases h1 : n = 1
    · subst h1
      simp
    · have hlog : Nat.log 2 n = Nat.log 2 (n / 2) + 1 := Nat.log_of_one_lt_of_le (by omega) (by omega)
      calc harmonic n ≤ harmonic (2 * (n / 2) + 1) := harmonic_mono (by omega)
        _ ≤ harmonic (n / 2) + 1 := harmonic_two_mul_le _
        _ ≤ 1 + Nat.log 2 (n / 2) + 1 := by
          have := ih (n / 2) (by omega) (by omega)
          linarith
        _ = 1 + Nat.log 2 n := by
          rw [hlog]
          push_cast
          ring

/-- **However long the run, a priority climbs by at most `log₂` of the number of candidates total
weights.** -/
theorem Run.upper_log (h : Run s w p ks q) (hw : ∀ i ∈ s, 0 < w i) (hM : ∀ i ∈ s, p i ≤ M)
    (hi : i ∈ s) :
    q i ≤ M + Nat.log 2 s.card * ∑ j ∈ s, w j := by
  have hlev := h.levelled hw (levelled_of_le hw hM) {i} (singleton_subset_iff.mpr hi)
  have hone : harmonic 1 = 1 := by simp
  have hlog := harmonic_le_log (card_pos.mpr ⟨i, hi⟩)
  have hT : (0 : ℚ) ≤ (∑ i ∈ s, w i : ℤ) := by
    exact_mod_cast sum_nonneg fun i hi => (hw i hi).le
  rw [sum_singleton, card_singleton, hone, Nat.cast_one, one_mul] at hlev
  have hle : ((q i : ℤ) : ℚ) ≤ M + Nat.log 2 s.card * (∑ j ∈ s, w j : ℤ) := by
    calc ((q i : ℤ) : ℚ) ≤ M + (∑ j ∈ s, w j : ℤ) * (harmonic s.card - 1) := hlev
      _ ≤ M + (∑ j ∈ s, w j : ℤ) * Nat.log 2 s.card := by
        gcongr
        linarith
      _ = _ := by ring
  exact_mod_cast hle

end CometBFT.Rotation
