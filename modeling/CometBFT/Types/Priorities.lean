import CometBFT.Lib.Rotation
import CometBFT.Types.ValidatorSet

/-!
# Priorities

What the functions on priorities do as long as no number leaves 64 bits. Rescaling brings the
difference between the highest and the lowest priority under its bound, centring brings the sum
close to zero, and one increment is an election of the weighted rotation.

## Main results

* `rescalePriorities_spec`, `rescalePriorities_of_le` — rescaling, and when it changes nothing
* `shiftByAvg_spec`, `shiftByAvg_of_centred` — centring, and when it changes nothing
* `elects_replace` — one increment is an election
* `incrementTimes_run` — many increments are a run of elections
-/

namespace CometBFT.Types

open Function List Validator

/-- What no function on priorities changes of a validator. -/
def Validator.shape (v : Validator) : Bytes × Option PubKey × ℤ :=
  (v.address, v.pubKey, v.votingPower)

def Validator.withPriority (v : Validator) (p : ℤ) : Validator := { v with proposerPriority := p }

@[simp] theorem Validator.withPriority_shape (v : Validator) (p : ℤ) :
    (v.withPriority p).shape = v.shape := rfl

@[simp] theorem Validator.withPriority_proposerPriority (v : Validator) (p : ℤ) :
    (v.withPriority p).proposerPriority = p := rfl

namespace Validators

variable {vals vals' : List Validator}

/-! ### What is measured -/

def prioritySum (vals : List Validator) : ℤ := (vals.map proposerPriority).sum

def powerSum (vals : List Validator) : ℤ := (vals.map votingPower).sum

def addresses (vals : List Validator) : List Bytes := vals.map address

/-- The difference between the highest and the lowest priority. -/
def spread (vals : List Validator) : ℤ := maxPriority vals - minPriority vals

/-- All priorities are between `lo` and `hi`. -/
def Within (lo hi : ℤ) (vals : List Validator) : Prop :=
  ∀ v ∈ vals, lo ≤ v.proposerPriority ∧ v.proposerPriority ≤ hi

/-- The sum of the priorities is as close to zero as an average rounded down can bring it. -/
def Centred (vals : List Validator) : Prop :=
  0 ≤ prioritySum vals ∧ prioritySum vals < vals.length

variable {hi lo diffMax : ℤ}

theorem Within.mono {lo' hi' : ℤ} (h : Within lo hi vals) (hlo : lo' ≤ lo) (hhi : hi ≤ hi') :
    Within lo' hi' vals :=
  fun v hv => ⟨hlo.trans (h v hv).1, (h v hv).2.trans hhi⟩

theorem Within.fits (h : Within lo hi vals) (hlo : minInt64 ≤ lo) (hhi : hi ≤ maxInt64) :
    ∀ v ∈ vals, Fits64 v.proposerPriority :=
  h.mono hlo hhi

/-! ### The highest and the lowest priority -/

/-- A loop that keeps the greatest value seen. -/
theorem foldl_greatest {α β : Type*} [LinearOrder β] (f : α → β) (l : List α) (m : β) :
    m ≤ l.foldl (fun m a => if m < f a then f a else m) m ∧
      (∀ a ∈ l, f a ≤ l.foldl (fun m a => if m < f a then f a else m) m) ∧
      (l.foldl (fun m a => if m < f a then f a else m) m = m ∨
        ∃ a ∈ l, f a = l.foldl (fun m a => if m < f a then f a else m) m) := by
  induction l generalizing m with
  | nil => exact ⟨le_rfl, nofun, .inl rfl⟩
  | cons b l ih =>
    rw [foldl_cons]
    by_cases hb : m < f b
    · rw [if_pos hb]
      obtain ⟨hm, hle, hr⟩ := ih (f b)
      refine ⟨hb.le.trans hm, fun a ha => ?_, .inr ?_⟩
      · rcases mem_cons.mp ha with rfl | ha
        · exact hm
        · exact hle a ha
      · rcases hr with hr | ⟨a, ha, hr⟩
        · exact ⟨b, mem_cons_self, hr.symm⟩
        · exact ⟨a, mem_cons_of_mem _ ha, hr⟩
    · rw [if_neg hb]
      obtain ⟨hm, hle, hr⟩ := ih m
      refine ⟨hm, fun a ha => ?_, ?_⟩
      · rcases mem_cons.mp ha with rfl | ha
        · exact (not_lt.mp hb).trans hm
        · exact hle a ha
      · exact hr.imp_right fun ⟨a, ha, hr⟩ => ⟨a, mem_cons_of_mem _ ha, hr⟩

variable {v : Validator}

theorem le_maxPriority (hv : v ∈ vals) : v.proposerPriority ≤ maxPriority vals :=
  (foldl_greatest proposerPriority vals minInt64).2.1 v hv

theorem minPriority_le (hv : v ∈ vals) : minPriority vals ≤ v.proposerPriority :=
  (@foldl_greatest _ ℤᵒᵈ _ proposerPriority vals maxInt64).2.1 v hv

theorem exists_maxPriority (hne : vals ≠ []) (hfits : ∀ v ∈ vals, Fits64 v.proposerPriority) :
    ∃ v ∈ vals, v.proposerPriority = maxPriority vals := by
  rcases (foldl_greatest proposerPriority vals minInt64).2.2 with h | h
  · obtain ⟨v, hv⟩ := exists_mem_of_ne_nil vals hne
    exact ⟨v, hv, le_antisymm (le_maxPriority hv) (le_of_eq_of_le h (hfits v hv).1)⟩
  · exact h

theorem exists_minPriority (hne : vals ≠ []) (hfits : ∀ v ∈ vals, Fits64 v.proposerPriority) :
    ∃ v ∈ vals, v.proposerPriority = minPriority vals := by
  rcases (@foldl_greatest _ ℤᵒᵈ _ proposerPriority vals maxInt64).2.2 with h | h
  · obtain ⟨v, hv⟩ := exists_mem_of_ne_nil vals hne
    exact ⟨v, hv, le_antisymm (le_of_le_of_eq (hfits v hv).2 h.symm) (minPriority_le hv)⟩
  · exact h

variable {d : ℤ}

theorem spread_le_iff (hne : vals ≠ []) (hfits : ∀ v ∈ vals, Fits64 v.proposerPriority) :
    spread vals ≤ d ↔ ∀ u ∈ vals, ∀ v ∈ vals, u.proposerPriority - v.proposerPriority ≤ d := by
  constructor
  · intro h u hu v hv
    have h₁ := le_maxPriority hu
    have h₂ := minPriority_le hv
    unfold spread at h
    omega
  · intro h
    obtain ⟨u, hu, hmax⟩ := exists_maxPriority hne hfits
    obtain ⟨v, hv, hmin⟩ := exists_minPriority hne hfits
    have := h u hu v hv
    unfold spread
    omega

theorem spread_perm (hne : vals ≠ []) (hfits : ∀ v ∈ vals, Fits64 v.proposerPriority)
    (hperm : vals'.Perm vals) : spread vals' = spread vals := by
  have hne' : vals' ≠ [] := fun hnil => hne (perm_nil.mp (hnil ▸ hperm.symm))
  have hfits' : ∀ v ∈ vals', Fits64 v.proposerPriority := fun v hv => hfits v (hperm.mem_iff.mp hv)
  have hle := (spread_le_iff hne hfits).mp le_rfl
  have hle' := (spread_le_iff hne' hfits').mp le_rfl
  refine le_antisymm ((spread_le_iff hne' hfits').mpr fun u hu v hv => ?_)
    ((spread_le_iff hne hfits).mpr fun u hu v hv => ?_)
  · exact hle u (hperm.mem_iff.mp hu) v (hperm.mem_iff.mp hv)
  · exact hle' u (hperm.mem_iff.mpr hu) v (hperm.mem_iff.mpr hv)

theorem spread_nonneg (hne : vals ≠ []) : 0 ≤ spread vals := by
  obtain ⟨v, hv⟩ := exists_mem_of_ne_nil vals hne
  have h₁ := le_maxPriority hv
  have h₂ := minPriority_le hv
  unfold spread
  omega

theorem Within.spread_le (h : Within lo hi vals) (hne : vals ≠ []) (hlo : minInt64 ≤ lo)
    (hhi : hi ≤ maxInt64) : spread vals ≤ hi - lo := by
  rw [spread_le_iff hne (h.fits hlo hhi)]
  intro u hu v hv
  have h₁ := (h u hu).2
  have h₂ := (h v hv).1
  omega

theorem computeMaxMinPriorityDiff_eq (hne : vals ≠ []) (hfits : Fits64 (spread vals)) :
    computeMaxMinPriorityDiff vals = spread vals := by
  have h0 := spread_nonneg hne
  unfold computeMaxMinPriorityDiff
  rw [← spread, wrap64_of_fits hfits]
  exact if_neg (by omega)

/-! ### Rescaling -/

variable {a b : ℤ}

theorem tdiv_sub_tdiv_le {r : ℤ} (hr : 0 < r) (hd : 0 ≤ d) (h : a - b ≤ r * d) :
    a.tdiv r - b.tdiv r ≤ d := by
  -- division rounds toward zero: both sides of zero are a floor, of the value or of its negation
  have hfloor : ∀ {x y : ℤ}, x - y ≤ r * d → x / r - y / r ≤ d := by
    intro x y hxy
    have hle : x / r ≤ (y + r * d) / r := Int.ediv_le_ediv hr (by omega)
    rw [Int.add_mul_ediv_left _ _ hr.ne'] at hle
    omega
  have hneg : ∀ {x : ℤ}, x < 0 → x.tdiv r = -((-x) / r) := by
    intro x hx
    rw [← Int.tdiv_eq_ediv_of_nonneg (by omega), Int.neg_tdiv, neg_neg]
  by_cases ha : 0 ≤ a <;> by_cases hb : 0 ≤ b
  · rw [Int.tdiv_eq_ediv_of_nonneg ha, Int.tdiv_eq_ediv_of_nonneg hb]
    exact hfloor h
  · have h₁ : a / r * r ≤ a := Int.ediv_mul_le a hr.ne'
    have h₂ : -b / r * r ≤ -b := Int.ediv_mul_le (-b) hr.ne'
    rw [Int.tdiv_eq_ediv_of_nonneg ha, hneg (by omega)]
    refine le_of_mul_le_mul_right ?_ hr
    calc (a / r - -(-b / r)) * r = a / r * r + -b / r * r := by ring
      _ ≤ d * r := by rw [mul_comm d r]; omega
  · have h₁ : 0 ≤ -a / r := Int.ediv_nonneg (by omega) hr.le
    have h₂ : 0 ≤ b / r := Int.ediv_nonneg hb hr.le
    rw [hneg (by omega), Int.tdiv_eq_ediv_of_nonneg hb]
    omega
  · rw [hneg (by omega), hneg (by omega)]
    have : -b / r - -a / r ≤ d := hfloor (by omega)
    omega

theorem tdiv_mem {r : ℤ} (hr : 0 < r) (hlo : lo ≤ 0) (hhi : 0 ≤ hi) (h : lo ≤ a ∧ a ≤ hi) :
    lo ≤ a.tdiv r ∧ a.tdiv r ≤ hi := by
  by_cases ha : 0 ≤ a
  · have h₁ : 0 ≤ a.tdiv r := Int.tdiv_nonneg ha hr.le
    have h₂ : a.tdiv r ≤ a := Int.tdiv_le_self r ha
    omega
  · have h₁ : 0 ≤ (-a).tdiv r := Int.tdiv_nonneg (by omega) hr.le
    have h₂ : (-a).tdiv r ≤ -a := Int.tdiv_le_self r (by omega)
    rw [Int.neg_tdiv] at h₁ h₂
    omega

theorem rescalePriorities_of_le (hne : vals ≠ []) (hfits : Fits64 (spread vals))
    (hle : spread vals ≤ diffMax) : rescalePriorities diffMax vals = .ok vals := by
  unfold rescalePriorities
  rw [if_neg hne]
  split
  · rfl
  · show (if computeMaxMinPriorityDiff vals > diffMax then _ else _) = _
    rw [computeMaxMinPriorityDiff_eq hne hfits, if_neg (by omega)]

/-- **What rescaling does**: every priority is divided by the same number, so large that the
difference between them comes under `diffMax`. -/
theorem rescalePriorities_eq (hne : vals ≠ []) (hpos : 0 < diffMax)
    (hprio : ∀ v ∈ vals, Fits64 v.proposerPriority) (hfits : spread vals + diffMax - 1 ≤ maxInt64) :
    ∃ r, 0 < r ∧ spread vals ≤ r * diffMax ∧ rescalePriorities diffMax vals =
      .ok (vals.map fun v => v.withPriority (v.proposerPriority.tdiv r)) := by
  have h0 := spread_nonneg hne
  have hspread : Fits64 (spread vals) := ⟨by unfold minInt64; omega, by omega⟩
  by_cases hle : spread vals ≤ diffMax
  · refine ⟨1, one_pos, by omega, ?_⟩
    rw [rescalePriorities_of_le hne hspread hle]
    simp only [Int.tdiv_one]
    exact congrArg _ (map_id vals).symm
  have hmax := maxInt64_eq
  have hmin := minInt64_eq
  -- the ratio is the difference over `diffMax`, rounded up
  have hratio : (wrap64 (wrap64 (spread vals + diffMax) - 1)).tdiv diffMax =
      (spread vals + diffMax - 1) / diffMax := by
    have hw' : wrap64 (wrap64 (spread vals + diffMax) - 1) = spread vals + diffMax - 1 := by
      unfold wrap64
      omega
    rw [hw', Int.tdiv_eq_ediv_of_nonneg (by omega)]
  have hceil : spread vals ≤ (spread vals + diffMax - 1) / diffMax * diffMax := by
    have h₁ := Int.emod_lt_of_pos (spread vals + diffMax - 1) hpos
    have h₂ := Int.emod_add_mul_ediv (spread vals + diffMax - 1) diffMax
    have h₃ := mul_comm diffMax ((spread vals + diffMax - 1) / diffMax)
    omega
  have hr : 0 < (spread vals + diffMax - 1) / diffMax :=
    Int.le_ediv_of_mul_le hpos (by omega)
  generalize (spread vals + diffMax - 1) / diffMax = r at hratio hceil hr
  refine ⟨r, hr, hceil, ?_⟩
  unfold rescalePriorities
  rw [if_neg hne, if_neg (by omega), computeMaxMinPriorityDiff_eq hne hspread]
  dsimp only
  rw [hratio, if_pos (by omega), if_neg hr.ne']
  congr 1
  refine map_congr_left fun v hv => ?_
  rw [wrap64_of_fits (tdiv_mem hr (by omega) (by omega) (hprio v hv))]
  rfl

/-- **Rescaling** keeps who is in the set with which power, keeps every bound on the priorities that
has zero inside, and brings the difference between them under `diffMax`. -/
theorem rescalePriorities_spec (hne : vals ≠ []) (hpos : 0 < diffMax) (hw : Within lo hi vals)
    (hlo : minInt64 ≤ lo) (hlo' : lo ≤ 0) (hhi : hi ≤ maxInt64) (hhi' : 0 ≤ hi)
    (hfits : spread vals + diffMax - 1 ≤ maxInt64) :
    ∃ vals', rescalePriorities diffMax vals = .ok vals' ∧
      vals'.map shape = vals.map shape ∧ Within lo hi vals' ∧
      spread vals' ≤ diffMax := by
  obtain ⟨r, hr, hceil, heq⟩ := rescalePriorities_eq hne hpos (hw.fits hlo hhi) hfits
  have hw' : Within lo hi (vals.map fun v => v.withPriority (v.proposerPriority.tdiv r)) := by
    intro v' hv'
    obtain ⟨v, hv, rfl⟩ := mem_map.mp hv'
    exact tdiv_mem hr hlo' hhi' (hw v hv)
  refine ⟨_, heq, by simp [comp_def], hw', ?_⟩
  rw [spread_le_iff (by simpa using hne) (hw'.fits hlo hhi)]
  intro u' hu' v' hv'
  obtain ⟨u, hu, rfl⟩ := mem_map.mp hu'
  obtain ⟨v, hv, rfl⟩ := mem_map.mp hv'
  refine tdiv_sub_tdiv_le hr hpos.le (le_trans ?_ hceil)
  exact (spread_le_iff hne (hw.fits hlo hhi)).mp le_rfl u hu v hv

/-! ### What stays as it is -/

section

variable (h : vals'.map shape = vals.map shape)

include h

theorem addresses_of_shape : addresses vals' = addresses vals := by
  have := congrArg (map Prod.fst) h
  simpa [addresses, comp_def, shape] using this

theorem powers_of_shape : vals'.map votingPower = vals.map votingPower := by
  have := congrArg (map fun x => x.2.2) h
  simpa [comp_def, shape] using this

theorem powerSum_of_shape : powerSum vals' = powerSum vals := by
  unfold powerSum
  rw [powers_of_shape h]

theorem length_of_shape : vals'.length = vals.length := by
  simpa using congrArg length h

theorem ne_nil_of_shape (hne : vals ≠ []) : vals' ≠ [] := by
  rw [ne_eq, ← length_eq_zero_iff] at hne ⊢
  rwa [length_of_shape h]

theorem power_of_shape {P : ℤ → Prop} (hP : ∀ v ∈ vals, P v.votingPower) :
    ∀ v ∈ vals', P v.votingPower := by
  intro v hv
  have hmem : v.votingPower ∈ vals.map votingPower :=
    powers_of_shape h ▸ mem_map_of_mem hv
  obtain ⟨u, hu, huv⟩ := mem_map.mp hmem
  exact huv ▸ hP u hu

end

/-! ### Centring -/

theorem safeSub_of_fits (h : Fits64 (a - b)) : safeSub a b = (a - b, false) := by
  obtain ⟨h₁, h₂⟩ := h
  unfold safeSub
  rw [if_neg (by omega), if_neg (by omega)]

theorem safeSubClip_of_fits (h : Fits64 (a - b)) : safeSubClip a b = a - b := by
  unfold safeSubClip
  rw [safeSub_of_fits h]

theorem safeAdd_of_fits (h : Fits64 (a + b)) : safeAdd a b = (a + b, false) := by
  obtain ⟨h₁, h₂⟩ := h
  unfold safeAdd
  rw [if_neg (by omega), if_neg (by omega)]

theorem safeAddClip_of_fits (h : Fits64 (a + b)) : safeAddClip a b = a + b := by
  unfold safeAddClip
  rw [safeAdd_of_fits h]

theorem prioritySum_le {hi : ℤ} (h : ∀ v ∈ vals, v.proposerPriority ≤ hi) :
    prioritySum vals ≤ vals.length * hi := by
  simpa [prioritySum] using
    sum_le_card_nsmul (vals.map proposerPriority) hi (by simpa using h)

theorem le_prioritySum {lo : ℤ} (h : ∀ v ∈ vals, lo ≤ v.proposerPriority) :
    vals.length * lo ≤ prioritySum vals := by
  simpa [prioritySum] using
    card_nsmul_le_sum (vals.map proposerPriority) lo (by simpa using h)

theorem prioritySum_shift (vals : List Validator) (c : ℤ) :
    prioritySum (vals.map fun v => v.withPriority (v.proposerPriority - c)) =
      prioritySum vals - vals.length * c := by
  induction vals with
  | nil => simp [prioritySum]
  | cons v vals ih =>
    simp only [prioritySum, map_cons, sum_cons, length_cons,
      withPriority_proposerPriority] at ih ⊢
    rw [ih]
    push_cast
    ring

/-- In a centred list somebody is at or above zero and somebody is at or below it. -/
theorem Centred.within (h : Centred vals)
    (hd : ∀ u ∈ vals, ∀ v ∈ vals, u.proposerPriority - v.proposerPriority ≤ d) :
    Within (-d) d vals := by
  have hhigh : ∃ u ∈ vals, 0 ≤ u.proposerPriority := by
    by_contra hno
    push Not at hno
    have hle := @prioritySum_le vals (-1) fun v hv => by have := hno v hv; omega
    obtain ⟨h₁, h₂⟩ := h
    omega
  have hlow : ∃ u ∈ vals, u.proposerPriority ≤ 0 := by
    by_contra hno
    push Not at hno
    have hle := @le_prioritySum vals 1 fun v hv => by have := hno v hv; omega
    obtain ⟨h₁, h₂⟩ := h
    omega
  obtain ⟨u, hu, hu0⟩ := hhigh
  obtain ⟨l, hl, hl0⟩ := hlow
  intro v hv
  have h₁ := hd u hu v hv
  have h₂ := hd v hv l hl
  omega

theorem shiftByAvg_of_centred (hne : vals ≠ []) (h : Centred vals)
    (hfits : ∀ v ∈ vals, Fits64 v.proposerPriority) : shiftByAvgProposerPriority vals = .ok vals := by
  have havg : computeAvgProposerPriority vals = .ok 0 := by
    have h0 : prioritySum vals / vals.length = 0 := Int.ediv_eq_zero_of_lt h.1 h.2
    unfold computeAvgProposerPriority
    rw [← prioritySum, h0]
    rfl
  unfold shiftByAvgProposerPriority
  rw [if_neg hne, havg]
  show Except.ok (vals.map _) = _
  congr 1
  refine (map_congr_left fun v hv => ?_).trans (map_id vals)
  rw [safeSubClip_of_fits (by rw [sub_zero]; exact hfits v hv), sub_zero]
  rfl

/-- **Centring** keeps who is in the set with which power and the differences between the
priorities. -/
theorem shiftByAvg_spec (hne : vals ≠ []) (hw : Within lo hi vals) (hlo : minInt64 ≤ lo)
    (hhi : hi ≤ maxInt64) (hspread : spread vals ≤ d) (hd : d ≤ maxInt64) :
    ∃ vals', shiftByAvgProposerPriority vals = .ok vals' ∧
      vals'.map shape = vals.map shape ∧ Centred vals' ∧
      spread vals' ≤ d ∧ Within (-d) d vals' ∧
      (∀ avg, computeAvgProposerPriority vals = .ok avg →
        ∀ v ∈ vals, (safeSub v.proposerPriority avg).2 = false) := by
  have hlen : (0 : ℤ) < vals.length := by exact_mod_cast length_pos_iff.mpr hne
  obtain ⟨c, hc⟩ : ∃ c, c = prioritySum vals / vals.length := ⟨_, rfl⟩
  have hdiff := (spread_le_iff hne (hw.fits hlo hhi)).mp hspread
  -- the average lies between the lowest and the highest priority
  have hle : c ≤ maxPriority vals := by
    rw [hc]
    refine Int.ediv_le_of_le_mul hlen ?_
    rw [mul_comm]
    exact prioritySum_le fun v hv => le_maxPriority hv
  have hge : minPriority vals ≤ c := by
    rw [hc]
    refine Int.le_ediv_of_mul_le hlen ?_
    rw [mul_comm]
    exact le_prioritySum fun v hv => minPriority_le hv
  have hmin := minInt64_eq
  have hmax := maxInt64_eq
  have hfits : ∀ v ∈ vals, Fits64 (v.proposerPriority - c) := by
    intro v hv
    have h₁ := le_maxPriority hv
    have h₂ := minPriority_le hv
    unfold spread at hspread
    exact ⟨by omega, by omega⟩
  have havg : computeAvgProposerPriority vals = .ok c := by
    obtain ⟨u, hu, hu'⟩ := exists_maxPriority hne (hw.fits hlo hhi)
    obtain ⟨l, hl, hl'⟩ := exists_minPriority hne (hw.fits hlo hhi)
    have h₁ := hw u hu
    have h₂ := hw l hl
    unfold computeAvgProposerPriority
    rw [← prioritySum, ← hc]
    exact if_pos ⟨by omega, by omega⟩
  have hcentred : Centred (vals.map fun v => v.withPriority (v.proposerPriority - c)) := by
    have hmod := Int.emod_add_mul_ediv (prioritySum vals) vals.length
    have h₁ := Int.emod_nonneg (prioritySum vals) hlen.ne'
    have h₂ := Int.emod_lt_of_pos (prioritySum vals) hlen
    rw [← hc] at hmod
    constructor
    · rw [prioritySum_shift]
      omega
    · rw [prioritySum_shift, length_map]
      omega
  have hdiff' : ∀ u ∈ vals.map fun v => v.withPriority (v.proposerPriority - c),
      ∀ v ∈ vals.map fun v => v.withPriority (v.proposerPriority - c),
        u.proposerPriority - v.proposerPriority ≤ d := by
    intro u' hu' v' hv'
    obtain ⟨u, hu, rfl⟩ := mem_map.mp hu'
    obtain ⟨v, hv, rfl⟩ := mem_map.mp hv'
    have := hdiff u hu v hv
    simp only [withPriority_proposerPriority]
    omega
  refine ⟨vals.map fun v => v.withPriority (v.proposerPriority - c), ?_,
    by simp [comp_def], hcentred, ?_, hcentred.within hdiff', ?_⟩
  · unfold shiftByAvgProposerPriority
    rw [if_neg hne, havg]
    show Except.ok (vals.map _) = _
    congr 1
    exact map_congr_left fun v hv => by rw [safeSubClip_of_fits (hfits v hv)]; rfl
  · refine (spread_le_iff (by simpa using hne) fun v' hv' => ?_).mpr hdiff'
    obtain ⟨v, hv, rfl⟩ := mem_map.mp hv'
    exact hfits v hv
  · intro avg havg' v hv
    rw [havg] at havg'
    cases havg'
    rw [safeSub_of_fits (hfits v hv)]

/-! ### Elections -/

/-- The priority of the validator with address `a`. -/
def priorityOf (vals : List Validator) (a : Bytes) : ℤ :=
  ((getByAddress vals a).map proposerPriority).getD 0

/-- The voting power of the validator with address `a`. -/
def powerOf (vals : List Validator) (a : Bytes) : ℤ :=
  ((getByAddress vals a).map votingPower).getD 0

section

variable (hnodup : (addresses vals).Nodup)

include hnodup

theorem getByAddress_of_mem (hv : v ∈ vals) : getByAddress vals v.address = some v := by
  induction vals with
  | nil => exact absurd hv not_mem_nil
  | cons u vals ih =>
    obtain ⟨hu, hnodup⟩ := nodup_cons.mp hnodup
    rcases mem_cons.mp hv with rfl | hv
    · exact find?_cons_of_pos (by simp)
    · have hne : u.address ≠ v.address := fun h => hu (h ▸ mem_map_of_mem hv)
      exact (find?_cons_of_neg (by simpa using hne)).trans (ih hnodup hv)

theorem priorityOf_of_mem (hv : v ∈ vals) : priorityOf vals v.address = v.proposerPriority := by
  rw [priorityOf, getByAddress_of_mem hnodup hv, Option.map_some, Option.getD_some]

theorem powerOf_of_mem (hv : v ∈ vals) : powerOf vals v.address = v.votingPower := by
  rw [powerOf, getByAddress_of_mem hnodup hv, Option.map_some, Option.getD_some]

theorem sum_addresses (f : Bytes → ℤ) :
    ∑ a ∈ (addresses vals).toFinset, f a = (vals.map fun v => f v.address).sum := by
  rw [sum_toFinset f hnodup, addresses, map_map]
  rfl

theorem sum_powerOf : ∑ a ∈ (addresses vals).toFinset, powerOf vals a = powerSum vals := by
  rw [sum_addresses hnodup]
  exact congrArg sum (map_congr_left fun v hv => powerOf_of_mem hnodup hv)

theorem sum_priorityOf : ∑ a ∈ (addresses vals).toFinset, priorityOf vals a = prioritySum vals := by
  rw [sum_addresses hnodup]
  exact congrArg sum (map_congr_left fun v hv => priorityOf_of_mem hnodup hv)

end

theorem exists_of_mem_addresses {a : Bytes} (ha : a ∈ (addresses vals).toFinset) :
    ∃ v ∈ vals, v.address = a :=
  mem_map.mp (mem_toFinset.mp ha)

theorem mem_addresses (hv : v ∈ vals) : v.address ∈ (addresses vals).toFinset :=
  mem_toFinset.mpr (mem_map_of_mem hv)

theorem powerOf_of_shape (h : vals'.map shape = vals.map shape) (a : Bytes) :
    powerOf vals' a = powerOf vals a := by
  induction vals generalizing vals' with
  | nil => rw [map_eq_nil_iff.mp h]
  | cons v vals ih =>
    cases vals' with
    | nil => exact absurd h (by simp)
    | cons v' vals' =>
      obtain ⟨hv, h⟩ := cons.inj h
      have haddr : v'.address = v.address := congrArg Prod.fst hv
      have hpower : v'.votingPower = v.votingPower := congrArg (fun x => x.2.2) hv
      have ih := ih h
      unfold powerOf getByAddress at ih ⊢
      rw [find?_cons, find?_cons, haddr]
      split
      · exact hpower
      · exact ih

/-- `m` is preferred to `v`, or is as good: a higher priority, or the same and no higher address. -/
def Preferred (m v : Validator) : Prop :=
  v.proposerPriority < m.proposerPriority ∨
    v.proposerPriority = m.proposerPriority ∧ m.address ≤ v.address

theorem Preferred.refl (v : Validator) : Preferred v v := .inr ⟨rfl, le_rfl⟩

theorem Preferred.trans {u w : Validator} (h : Preferred u v) (h' : Preferred v w) :
    Preferred u w := by
  rcases h with h | ⟨h, ha⟩ <;> rcases h' with h' | ⟨h', ha'⟩
  · exact .inl (h'.trans h)
  · exact .inl (h' ▸ h)
  · exact .inl (h ▸ h')
  · exact .inr ⟨h'.trans h, ha.trans ha'⟩

variable {m : Validator}

theorem Preferred.le (h : Preferred m v) :
    v.proposerPriority ≤ m.proposerPriority :=
  h.elim le_of_lt fun h => h.1.le

theorem Preferred.address_eq {u : Validator} (h : Preferred u v) (h' : Preferred v u) :
    u.address = v.address := by
  rcases h with h | ⟨h, ha⟩ <;> rcases h' with h' | ⟨h', ha'⟩
  · omega
  · omega
  · omega
  · exact le_antisymm ha ha'

/-- Of two validators with different addresses, the comparison gives the preferred one. -/
theorem compareProposerPriority_spec {other : Validator} (hne : v.address ≠ other.address) :
    ∃ m, compareProposerPriority (some v) other = .ok m ∧ (m = v ∨ m = other) ∧
      Preferred m v ∧ Preferred m other := by
  unfold compareProposerPriority
  dsimp only
  split
  · exact ⟨v, rfl, .inl rfl, .refl v, .inl ‹_›⟩
  split
  · exact ⟨other, rfl, .inr rfl, .inl ‹_›, .refl other⟩
  have heq : v.proposerPriority = other.proposerPriority := by omega
  split
  · exact ⟨v, rfl, .inl rfl, .refl v, .inr ⟨heq.symm, le_of_lt ‹_›⟩⟩
  split
  · exact ⟨other, rfl, .inr rfl, .inr ⟨heq, le_of_lt ‹_›⟩, .refl other⟩
  · rename_i h₁ h₂
    exact absurd (le_antisymm (not_lt.mp h₂) (not_lt.mp h₁)) hne

theorem foldlM_most {res : Validator} (hnodup : (addresses (res :: vals)).Nodup) :
    ∃ m ∈ res :: vals, vals.foldlM (fun res val => some <$> compareProposerPriority res val)
        (some res) = Except.ok (some m) ∧ ∀ v ∈ res :: vals, Preferred m v := by
  induction vals generalizing res with
  | nil =>
    refine ⟨res, mem_singleton_self res, rfl, fun v hv => ?_⟩
    rw [mem_singleton.mp hv]
    exact .refl res
  | cons u vals ih =>
    have hres := nodup_cons.mp hnodup
    have hu := nodup_cons.mp hres.2
    have hdiff : res.address ≠ u.address := fun h => hres.1 (h ▸ mem_cons_self)
    obtain ⟨r, hr, hor, hle₁, hle₂⟩ := compareProposerPriority_spec hdiff
    have hmem : r ∈ res :: u :: vals := by
      rcases hor with rfl | rfl
      · exact mem_cons_self
      · exact mem_cons_of_mem _ mem_cons_self
    have hnodup' : (addresses (r :: vals)).Nodup := by
      refine nodup_cons.mpr ⟨?_, hu.2⟩
      rcases hor with rfl | rfl
      · exact fun h => hres.1 (mem_cons_of_mem _ h)
      · exact hu.1
    obtain ⟨m, hm, hfold, hmax⟩ := ih hnodup'
    refine ⟨m, ?_, ?_, ?_⟩
    · rcases mem_cons.mp hm with rfl | hm
      · exact hmem
      · exact mem_cons_of_mem _ (mem_cons_of_mem _ hm)
    · rw [foldlM_cons, hr]
      exact hfold
    · have hrm := hmax r mem_cons_self
      intro v hv
      rcases mem_cons.mp hv with rfl | hv
      · exact hrm.trans hle₁
      · rcases mem_cons.mp hv with rfl | hv
        · exact hrm.trans hle₂
        · exact hmax v (mem_cons_of_mem _ hv)

theorem getValWithMostPriority_spec (hne : vals ≠ []) (hnodup : (addresses vals).Nodup) :
    ∃ m ∈ vals, getValWithMostPriority vals = .ok (some m) ∧ ∀ v ∈ vals, Preferred m v := by
  obtain ⟨res, vals, rfl⟩ := exists_cons_of_ne_nil hne
  exact foldlM_most hnodup

/-- The priorities with the powers added. -/
def raise (vals : List Validator) : List Validator :=
  vals.map fun v => v.withPriority (v.proposerPriority + v.votingPower)

theorem shape_raise (vals : List Validator) :
    (raise vals).map shape = vals.map shape := by
  simp [raise, comp_def]

theorem mem_raise (hv : v ∈ vals) :
    v.withPriority (v.proposerPriority + v.votingPower) ∈ raise vals :=
  mem_map_of_mem hv

/-- The validator with the address of `m` is replaced by `m`. -/
def replace (m : Validator) (vals : List Validator) : List Validator :=
  vals.map fun val => if val.address = m.address then m else val

theorem mem_replace_self (h : m.address ∈ addresses vals) : m ∈ replace m vals := by
  obtain ⟨v, hv, hva⟩ := mem_map.mp h
  exact mem_map.mpr ⟨v, hv, if_pos hva⟩

theorem mem_replace_of_ne (hv : v ∈ vals) (hne : v.address ≠ m.address) :
    v ∈ replace m vals :=
  mem_map.mpr ⟨v, hv, if_neg hne⟩

theorem shape_replace (hnodup : (addresses vals).Nodup) (hm : m ∈ vals) (p : ℤ) :
    (replace (m.withPriority p) vals).map shape = vals.map shape := by
  rw [replace, map_map]
  refine map_congr_left fun v hv => ?_
  show (if v.address = m.address then m.withPriority p else v).shape = v.shape
  split
  · rename_i hva
    have hvm : v = m := Option.some.inj ((getByAddress_of_mem hnodup hv).symm.trans
      (hva ▸ getByAddress_of_mem hnodup hm))
    rw [hvm, withPriority_shape]
  · rfl

theorem votingPower_le_powerSum (hpos : ∀ v ∈ vals, 0 < v.votingPower) (hv : v ∈ vals) :
    v.votingPower ≤ powerSum vals :=
  single_le_sum (by simpa using fun v hv => (hpos v hv).le) _ (mem_map_of_mem hv)

theorem powerSum_pos (hne : vals ≠ []) (hpos : ∀ v ∈ vals, 0 < v.votingPower) : 0 < powerSum vals := by
  obtain ⟨v, hv⟩ := exists_mem_of_ne_nil vals hne
  exact (hpos v hv).trans_le (votingPower_le_powerSum hpos hv)

/-- The numbers of one election: nothing is clipped when the powers are added, nor when the elected
validator pays `total`. -/
structure ElectionExact (total : ℤ) (vals : List Validator) : Prop where
  raise : ∀ v ∈ vals, (safeAdd v.proposerPriority v.votingPower).2 = false
  pay : ∀ m, getValWithMostPriority (vals.map fun val =>
      { val with proposerPriority := safeAddClip val.proposerPriority val.votingPower }) =
        .ok (some m) → (safeSub m.proposerPriority total).2 = false

/-- Who is elected, and what is left, as long as nothing is clipped. -/
theorem incrementProposerPriority_spec (hne : vals ≠ []) (hnodup : (addresses vals).Nodup)
    (hpos : ∀ v ∈ vals, 0 < v.votingPower) (hw : Within lo hi vals)
    (hlo : minInt64 + powerSum vals ≤ lo) (hhi : hi + powerSum vals ≤ maxInt64) :
    ElectionExact (powerSum vals) vals ∧ ∃ m ∈ raise vals, (∀ v ∈ raise vals, Preferred m v) ∧
      incrementProposerPriority (powerSum vals) vals =
        .ok (replace (m.withPriority (m.proposerPriority - powerSum vals)) (raise vals),
          m.withPriority (m.proposerPriority - powerSum vals)) := by
  have hmin := minInt64_eq
  have hmax64 := maxInt64_eq
  have hfits : ∀ v ∈ vals, Fits64 (v.proposerPriority + v.votingPower) := by
    intro v hv
    have h₁ := hw v hv
    have h₂ := hpos v hv
    have h₃ := votingPower_le_powerSum hpos hv
    exact ⟨by omega, by omega⟩
  have hclip : (vals.map fun val : Validator => { val with
      proposerPriority := safeAddClip val.proposerPriority val.votingPower }) = raise vals :=
    map_congr_left fun v hv => by rw [safeAddClip_of_fits (hfits v hv)]; rfl
  obtain ⟨m, hm, hmost, hmax⟩ := getValWithMostPriority_spec
    (ne_nil_of_shape (shape_raise vals) hne) (addresses_of_shape (shape_raise vals) ▸ hnodup)
  have hpay : Fits64 (m.proposerPriority - powerSum vals) := by
    obtain ⟨u, hu, rfl⟩ := mem_map.mp hm
    have h₁ := hw u hu
    have h₂ := hpos u hu
    have h₃ := votingPower_le_powerSum hpos hu
    show Fits64 (u.proposerPriority + u.votingPower - powerSum vals)
    exact ⟨by omega, by omega⟩
  refine ⟨⟨fun v hv => by rw [safeAdd_of_fits (hfits v hv)], fun r hr => ?_⟩, m, hm, hmax, ?_⟩
  · rw [hclip, hmost] at hr
    cases hr
    rw [safeSub_of_fits hpay]
  · unfold incrementProposerPriority
    dsimp only
    rw [hclip, hmost, ← safeSubClip_of_fits hpay]
    rfl

/-- **One increment is an election** of the weighted rotation, among the addresses, with the voting
powers as weights. -/
theorem elects_replace (hnodup : (addresses vals).Nodup) (hm : m ∈ raise vals)
    (hmax : ∀ v ∈ raise vals, Preferred m v) :
    Rotation.Elects (addresses vals).toFinset (powerOf vals) (priorityOf vals) m.address
      (priorityOf (replace (m.withPriority (m.proposerPriority - powerSum vals)) (raise vals))) := by
  have hraise := addresses_of_shape (shape_raise vals)
  have hnodup' : (addresses (replace (m.withPriority (m.proposerPriority - powerSum vals))
      (raise vals))).Nodup := by
    rw [addresses_of_shape (shape_replace (hraise ▸ hnodup) hm _), hraise]
    exact hnodup
  obtain ⟨u, hu, hmu⟩ := mem_map.mp hm
  have hmaddr : m.address = u.address := hmu ▸ rfl
  have hmprio : m.proposerPriority = u.proposerPriority + u.votingPower := hmu ▸ rfl
  have hself : m.withPriority (m.proposerPriority - powerSum vals) ∈
      replace (m.withPriority (m.proposerPriority - powerSum vals)) (raise vals) :=
    mem_replace_self (mem_map.mpr ⟨m, hm, rfl⟩)
  refine ⟨hmaddr ▸ mem_addresses hu, fun a ha => ?_, ?_, fun a ha hne => ?_⟩
  · obtain ⟨v, hv, rfl⟩ := exists_of_mem_addresses ha
    rw [hmaddr, priorityOf_of_mem hnodup hv, powerOf_of_mem hnodup hv, priorityOf_of_mem hnodup hu,
      powerOf_of_mem hnodup hu, ← hmprio]
    exact (hmax _ (mem_raise hv)).le
  · refine (priorityOf_of_mem hnodup' hself).trans ?_
    rw [hmaddr, priorityOf_of_mem hnodup hu, powerOf_of_mem hnodup hu, sum_powerOf hnodup,
      withPriority_proposerPriority, hmprio]
  · obtain ⟨v, hv, rfl⟩ := exists_of_mem_addresses ha
    rw [priorityOf_of_mem hnodup hv, powerOf_of_mem hnodup hv]
    exact priorityOf_of_mem hnodup' (mem_replace_of_ne (mem_raise hv) hne)

/-! ### Many elections -/

theorem incrementTimes_add (total : ℤ) (a b : ℕ) (vals : List Validator) (p : Option Validator) :
    incrementTimes total (a + b) vals p =
      (incrementTimes total a vals p).bind fun r => incrementTimes total b r.1 r.2 := by
  induction a generalizing vals p with
  | zero =>
    rw [Nat.zero_add]
    rfl
  | succ a ih =>
    rw [Nat.succ_add]
    simp only [incrementTimes]
    cases incrementProposerPriority total vals with
    | error e => rfl
    | ok r => exact ih r.1 (some r.2)

theorem incrementTimes_one (total : ℤ) (vals : List Validator) (p : Option Validator) :
    incrementTimes total 1 vals p =
      (incrementProposerPriority total vals).bind fun r => .ok (r.1, some r.2) :=
  rfl

/-- How far a priority can climb in `n` elections. -/
def climb (n : ℕ) (vals : List Validator) : ℤ :=
  (min n (Nat.log 2 vals.length) : ℕ) * powerSum vals

/-- A list that elections can start from: different addresses, positive powers, a sum of priorities
that is not negative, and priorities between `lo` and `hi`. -/
structure Electable (lo hi : ℤ) (vals : List Validator) : Prop where
  ne_nil : vals ≠ []
  nodup : (addresses vals).Nodup
  pos : ∀ v ∈ vals, 0 < v.votingPower
  sum : 0 ≤ prioritySum vals
  within : Within lo hi vals
  low : minInt64 + powerSum vals ≤ lo
  low_le : lo ≤ 1 - powerSum vals

/-- `cur` is what became of `vals` when `ks` were elected one after the other. -/
structure Elected (vals : List Validator) (ks : List Bytes) (cur : List Validator) : Prop where
  shape : cur.map shape = vals.map shape
  run : Rotation.Run (addresses vals).toFinset (powerOf vals) (priorityOf vals) ks (priorityOf cur)

section

variable {lo hi : ℤ} {ks : List Bytes} {cur : List Validator}

theorem Electable.powerSum_pos (h : Electable lo hi vals) : 0 < powerSum vals :=
  Validators.powerSum_pos h.ne_nil h.pos

theorem Electable.powerOf_pos (h : Electable lo hi vals) :
    ∀ a ∈ (addresses vals).toFinset, 0 < powerOf vals a := by
  intro a ha
  obtain ⟨v, hv, rfl⟩ := exists_of_mem_addresses ha
  exact powerOf_of_mem h.nodup hv ▸ h.pos v hv

theorem Electable.climb_mono (h : Electable lo hi vals) {m n : ℕ} (hmn : m ≤ n) :
    climb m vals ≤ climb n vals := by
  unfold climb
  have := h.powerSum_pos
  gcongr

section

variable (h : Elected vals ks cur) (hv : Electable lo hi vals)

include h hv

theorem Elected.nodup : (addresses cur).Nodup :=
  addresses_of_shape h.shape ▸ hv.nodup

theorem Elected.prioritySum_eq : prioritySum cur = prioritySum vals := by
  rw [← sum_priorityOf (h.nodup hv), addresses_of_shape h.shape, h.run.sum_eq,
    sum_priorityOf hv.nodup]

theorem Elected.within : Within lo (hi + climb ks.length vals) cur := by
  have haddr := addresses_of_shape h.shape
  have hcard : (addresses vals).toFinset.card = vals.length := by
    rw [toFinset_card_of_nodup hv.nodup, addresses, length_map]
  have hhi : ∀ a ∈ (addresses vals).toFinset, priorityOf vals a ≤ hi := by
    intro a ha
    obtain ⟨v, hv', rfl⟩ := exists_of_mem_addresses ha
    exact priorityOf_of_mem hv.nodup hv' ▸ (hv.within v hv').2
  intro v hvc
  have hmem : v.address ∈ (addresses vals).toFinset := haddr ▸ mem_addresses hvc
  have hlow := h.run.lower hv.powerOf_pos (sum_priorityOf hv.nodup ▸ hv.sum) hmem
  have hup₁ := h.run.upper_length hv.powerOf_pos hhi hmem
  have hup₂ := h.run.upper_log hv.powerOf_pos hhi hmem
  rw [priorityOf_of_mem (h.nodup hv) hvc, sum_powerOf hv.nodup] at hlow hup₁ hup₂
  rw [hcard] at hup₂
  obtain ⟨u, hu, hua⟩ := exists_of_mem_addresses hmem
  rw [← hua, priorityOf_of_mem hv.nodup hu] at hlow
  refine ⟨le_trans (le_min (hv.within u hu).1 hv.low_le) hlow, ?_⟩
  unfold climb
  rcases min_choice ks.length (Nat.log 2 vals.length) with hmin | hmin
  · rwa [hmin]
  · rwa [hmin]

/-- One more election. -/
theorem Elected.step (hroom : hi + climb ks.length vals + powerSum vals ≤ maxInt64) :
    ElectionExact (powerSum vals) cur ∧ ∃ cur' m, m ∈ cur' ∧
      incrementProposerPriority (powerSum vals) cur = .ok (cur', m) ∧
      Elected vals (ks ++ [m.address]) cur' := by
  have hpow := powerSum_of_shape h.shape
  have haddr := addresses_of_shape h.shape
  obtain ⟨hexact, m, hm, hmax, heq⟩ := incrementProposerPriority_spec
    (ne_nil_of_shape h.shape hv.ne_nil) (h.nodup hv) (power_of_shape h.shape hv.pos) (h.within hv)
    (hpow ▸ hv.low) (hpow ▸ hroom)
  have helects := elects_replace (h.nodup hv) hm hmax
  have hpowOf : powerOf cur = powerOf vals := funext fun a => powerOf_of_shape h.shape a
  rw [hpow] at hexact heq helects
  rw [haddr, hpowOf] at helects
  refine ⟨hexact, _, m.withPriority (m.proposerPriority - powerSum vals),
    mem_replace_self (mem_map.mpr ⟨m, hm, rfl⟩), heq, ?_, ?_⟩
  · have hnodup : (addresses (raise cur)).Nodup :=
      addresses_of_shape (shape_raise cur) ▸ h.nodup hv
    rw [shape_replace hnodup hm, shape_raise, h.shape]
  · exact h.run.snoc helects

end

/-- **Many increments are a run of elections.** Nothing is clipped on the way, if there is room for
as far as the priorities can climb and one total power more. -/
theorem Electable.incrementTimes_run (hv : Electable lo hi vals) (n : ℕ)
    (hroom : hi + climb n vals + powerSum vals ≤ maxInt64) (p : Option Validator) :
    ∃ cur p' ks, incrementTimes (powerSum vals) n vals p = .ok (cur, p') ∧ ks.length = n ∧
      Elected vals ks cur ∧ ElectionExact (powerSum vals) cur ∧
      (n ≠ 0 → ∃ m ∈ cur, p' = some m ∧ ks.getLast? = some m.address) := by
  induction n with
  | zero =>
    have h : Elected vals [] vals := ⟨rfl, .nil⟩
    exact ⟨vals, p, [], rfl, rfl, h, (h.step hv hroom).1, fun h => absurd rfl h⟩
  | succ n ih =>
    have hmono := hv.climb_mono (show n ≤ n + 1 by omega)
    obtain ⟨cur, p', ks, hinc, hlen, h, -, -⟩ := ih (by omega)
    obtain ⟨-, cur', m, hm, hone, h'⟩ := h.step hv (by rw [hlen]; omega)
    have hlen' : (ks ++ [m.address]).length = n + 1 := by
      rw [length_append, hlen, length_singleton]
    refine ⟨cur', some m, ks ++ [m.address], ?_, hlen', h', (h'.step hv (by rwa [hlen'])).1,
      fun _ => ⟨m, hm, rfl, getLast?_concat⟩⟩
    rw [incrementTimes_add, hinc]
    show incrementTimes (powerSum vals) 1 cur p' = _
    rw [incrementTimes_one, hone]
    rfl

end

end Validators

end CometBFT.Types
