import CometBFT.Lib.Runs
import CometBFT.Types.Cohorts

/-!
# Priorities within 64 bits

A validator set is made by `NewValidatorSet` and then changed by `UpdateWithChangeSet` and
`IncrementProposerPriority` in any order. The highest total power was chosen so that no number on
the way leaves 64 bits. That holds as long as a single call does not let a priority climb too far;
within one call the window is never narrowed, and a call with many increments can overflow it.

## Main results

* `arithmetic_exact` — no number leaves 64 bits, as long as no call lets a priority climb beyond
  `3.75` times the highest total power
* `rescaling_overflows` — a set whose next change overflows the window
-/

namespace CometBFT.Types

open Validators List ValidatorSet

/-! ### Calls -/

inductive Call where
  | update (changes : List Validator)
  | increment (times : ℤ)

def Call.apply (vals : ValidatorSet) : Call → Except Failure ValidatorSet
  | .update changes => vals.updateWithChangeSet changes true
  | .increment times => vals.incrementProposerPriority times

/-- The set after a call, if the call succeeds. -/
def next (vals : ValidatorSet) (c : Call) : Option ValidatorSet := (c.apply vals).toOption

/-! ### What must not leave 64 bits -/

/-- The numbers of `RescalePriorities`. -/
structure RescaleExact (diffMax : ℤ) (vals : List Validator) : Prop where
  diff : Fits64 (maxPriority vals - minPriority vals)
  ceil : Fits64 (computeMaxMinPriorityDiff vals + diffMax - 1)

/-- The numbers of `shiftByAvgProposerPriority`. -/
def ShiftExact (vals : List Validator) : Prop :=
  ∀ avg, computeAvgProposerPriority vals = .ok avg →
    ∀ v ∈ vals, (safeSub v.proposerPriority avg).2 = false

/-- The numbers of both, in the order they are called in. -/
structure CentreExact (total : ℤ) (vals : List Validator) : Prop where
  window : Fits64 (priorityWindowSizeFactor * total)
  rescale : RescaleExact (priorityWindowSizeFactor * total) vals
  shift : ∀ rescaled, rescalePriorities (wrap64 (priorityWindowSizeFactor * total)) vals =
    .ok rescaled → ShiftExact rescaled

/-- The numbers of `updateTotalVotingPower`. -/
def TotalExact (vals : List Validator) : Prop :=
  ∀ pre v post, vals = pre ++ v :: post →
    ∀ sum, updateTotalVotingPower pre = .ok sum → (safeAdd sum v.votingPower).2 = false

/-- The numbers of `IncrementProposerPriority(times)`. -/
def IncrementExact (vals : ValidatorSet) (times : ℤ) : Prop :=
  ∀ total, vals.getTotalVotingPower = .ok total →
    CentreExact total vals.validators ∧
    ∀ rescaled shifted,
      rescalePriorities (wrap64 (priorityWindowSizeFactor * total)) vals.validators = .ok rescaled →
      shiftByAvgProposerPriority rescaled = .ok shifted →
      ∀ k < times.toNat, ∀ cur p, incrementTimes total k shifted none = .ok (cur, p) →
        ElectionExact total cur

/-- The numbers of `updateWithChangeSet`. -/
def UpdateExact (vals : ValidatorSet) (changes : List Validator) (allowDeletes : Bool) : Prop :=
  ∀ tvp merged, vals.applyChangeSet changes allowDeletes = .ok (tvp, merged) →
    Fits64 (tvp + tvp / 8) ∧ Fits64 (-(tvp + tvp / 8)) ∧ TotalExact merged ∧
    ∀ total, updateTotalVotingPower merged = .ok total → CentreExact total merged

def Call.Exact (vals : ValidatorSet) : Call → Prop
  | .update changes => changes ≠ [] → UpdateExact vals changes true
  | .increment times => IncrementExact vals times

/-- The numbers of `NewValidatorSet`. -/
def NewExact (valz : List Validator) : Prop :=
  valz ≠ [] → UpdateExact { allKeysHaveSameType := true } valz false ∧
    ∀ vals, updateWithChangeSet { allKeysHaveSameType := true } valz false = .ok vals →
      IncrementExact vals 1

/-! ### What every call keeps -/

/-- A call lets no priority climb beyond `3.75` times the highest total power, from at most twice the
total power. A call with one increment never does. -/
def Call.Moderate (vals : ValidatorSet) : Call → Prop
  | .update _ => True
  | .increment times => 4 * (2 * powerSum vals.validators + climb times.toNat vals.validators) ≤
      15 * maxTotalVotingPower

instance (vals : ValidatorSet) (c : Call) : Decidable (c.Moderate vals) :=
  match c with
  | .update _ => inferInstanceAs (Decidable True)
  | .increment _ => inferInstanceAs (Decidable (_ ≤ _))

/-- The addresses of a set are distinct and its powers positive, the cached total power is right, and
its priorities are centred and within bounds. -/
structure ValidatorSet.Sound (vals : ValidatorSet) : Prop where
  nodup : (addresses vals.validators).Nodup
  pos : ∀ v ∈ vals.validators, 0 < v.votingPower
  total : vals.totalVotingPower = powerSum vals.validators
  total_le : powerSum vals.validators ≤ maxTotalVotingPower
  centred : vals.validators ≠ [] → Centred vals.validators
  low : ∀ v ∈ vals.validators, -(2 * powerSum vals.validators) ≤ v.proposerPriority
  high : ∀ v ∈ vals.validators, 4 * v.proposerPriority ≤ 15 * maxTotalVotingPower

theorem sound_empty : ValidatorSet.Sound { allKeysHaveSameType := true } where
  nodup := nodup_nil
  pos := nofun
  total := rfl
  total_le := by decide
  centred h := absurd rfl h
  low := nofun
  high := nofun

/-- Rescaling and centring, within bounds that leave room for the window. -/
theorem centre_spec {vals : List Validator} (hne : vals ≠ [])
    (hpos : ∀ v ∈ vals, 0 < v.votingPower) (hmax : powerSum vals ≤ maxTotalVotingPower) {lo hi : ℤ}
    (hw : Within lo hi vals) (hlo : lo ≤ 0) (hhi : 0 ≤ hi)
    (hroom : hi - lo ≤ 6 * maxTotalVotingPower) :
    CentreExact (powerSum vals) vals ∧ ∃ rescaled shifted,
      rescalePriorities (wrap64 (priorityWindowSizeFactor * powerSum vals)) vals = .ok rescaled ∧
      shiftByAvgProposerPriority rescaled = .ok shifted ∧
      shifted.map Validator.shape = vals.map Validator.shape ∧ Centred shifted ∧
      spread shifted ≤ 2 * powerSum vals ∧
      Within (-(2 * powerSum vals)) (2 * powerSum vals) shifted := by
  have hT := powerSum_pos hne hpos
  have hmaxval := maxTotalVotingPower_eq
  have hmin64 := minInt64_eq
  have hmax64 := maxInt64_eq
  have hwindow : priorityWindowSizeFactor * powerSum vals = 2 * powerSum vals := rfl
  have hspread := hw.spread_le hne (by omega) (by omega)
  have hspread0 := spread_nonneg hne
  have hfits : Fits64 (2 * powerSum vals) := ⟨by omega, by omega⟩
  rw [hwindow, wrap64_of_fits hfits]
  obtain ⟨rescaled, hrescale, hshape, hw', hspread'⟩ := rescalePriorities_spec hne
    (show 0 < 2 * powerSum vals by omega) hw (by omega) hlo (by omega) hhi (by omega)
  obtain ⟨shifted, hshift, hshape', hcentred, hwindow', hwithin, hexact⟩ := shiftByAvg_spec
    (ne_nil_of_shape hshape hne) hw' (by omega) (by omega) hspread' (by omega)
  have hdiff : Fits64 (spread vals) := ⟨by omega, by omega⟩
  refine ⟨⟨hfits, ⟨hdiff, ?_⟩, ?_⟩, rescaled, shifted, hrescale, hshift, hshape'.trans hshape,
    hcentred, hwindow', hwithin⟩
  · rw [computeMaxMinPriorityDiff_eq hne hdiff]
    exact ⟨by omega, by omega⟩
  · intro r hr
    rw [hwindow, wrap64_of_fits hfits, hrescale] at hr
    cases hr
    exact hexact

variable {vals : ValidatorSet}

theorem ValidatorSet.Sound.within (h : vals.Sound) :
    Within (-(2 * powerSum vals.validators)) (15 * maxTotalVotingPower / 4) vals.validators := by
  intro v hv
  have h₁ := h.low v hv
  have h₂ := h.high v hv
  exact ⟨h₁, by omega⟩

/-- What an increment did: `shifted` is the list after rescaling and centring, from which the
validators `ks` were elected. -/
structure Incremented (vals : ValidatorSet) (times : ℤ) (shifted : List Validator)
    (ks : List Bytes) (vals' : ValidatorSet) : Prop where
  centre : ∃ rescaled,
    rescalePriorities (wrap64 (priorityWindowSizeFactor * powerSum vals.validators))
      vals.validators = .ok rescaled ∧ shiftByAvgProposerPriority rescaled = .ok shifted
  shape : shifted.map Validator.shape = vals.validators.map Validator.shape
  electable : Electable (-(2 * powerSum shifted)) (2 * powerSum shifted) shifted
  loop : incrementTimes (powerSum vals.validators) times.toNat shifted none =
    .ok (vals'.validators, vals'.proposer)
  length : (ks.length : ℤ) = times
  elected : Elected shifted ks vals'.validators
  proposer : ∃ m ∈ vals'.validators, vals'.proposer = some m ∧ ks.getLast? = some m.address
  eq : vals.incrementProposerPriority times = .ok vals'
  rest : vals' = { vals with validators := vals'.validators, proposer := vals'.proposer }

variable {vals' : ValidatorSet} {times : ℤ}

theorem of_incrementProposerPriority_ok (h : vals.incrementProposerPriority times = .ok vals') :
    vals.validators ≠ [] ∧ 0 < times := by
  unfold ValidatorSet.incrementProposerPriority at h
  split at h
  · cases h
  split at h
  · cases h
  · exact ⟨‹_›, not_le.mp ‹_›⟩

/-- What a call did that succeeded. -/
theorem incrementProposerPriority_eq_ok (h : vals.incrementProposerPriority times = .ok vals') :
    ∃ total rescaled shifted, vals.getTotalVotingPower = .ok total ∧
      rescalePriorities (wrap64 (priorityWindowSizeFactor * total)) vals.validators = .ok rescaled ∧
      shiftByAvgProposerPriority rescaled = .ok shifted ∧
      incrementTimes total times.toNat shifted none = .ok (vals'.validators, vals'.proposer) ∧
      vals' = { vals with validators := vals'.validators, proposer := vals'.proposer } := by
  obtain ⟨hne, htimes⟩ := of_incrementProposerPriority_ok h
  unfold ValidatorSet.incrementProposerPriority at h
  rw [if_neg hne, if_neg (by omega)] at h
  obtain ⟨total, htotal, h⟩ := ok_of_bind h
  obtain ⟨rescaled, hrescale, h⟩ := ok_of_bind h
  obtain ⟨shifted, hshift, h⟩ := ok_of_bind h
  obtain ⟨⟨validators, proposer⟩, hinc, h⟩ := ok_of_bind h
  cases h
  exact ⟨total, rescaled, shifted, htotal, hrescale, hshift, hinc, rfl⟩

section

variable {total : ℤ} {rescaled shifted : List Validator}
  (htotal : vals.getTotalVotingPower = .ok total) (hne : vals.validators ≠ []) (htimes : 0 < times)
  (hrescale : rescalePriorities (wrap64 (priorityWindowSizeFactor * total)) vals.validators = .ok rescaled)
  (hshift : shiftByAvgProposerPriority rescaled = .ok shifted)

include htotal hne htimes hrescale hshift

/-- The loop of a call decides it. -/
theorem incrementProposerPriority_eq_map :
    vals.incrementProposerPriority times = (incrementTimes total times.toNat shifted none).map
      fun r => { vals with validators := r.1, proposer := r.2 } := by
  unfold ValidatorSet.incrementProposerPriority
  rw [if_neg hne, if_neg (by omega), bind_of_ok htotal, bind_of_ok hrescale, bind_of_ok hshift]
  cases incrementTimes total times.toNat shifted none <;> rfl

/-- The call, from its parts. -/
theorem incrementProposerPriority_eq {cur : List Validator} {p : Option Validator}
    (hinc : incrementTimes total times.toNat shifted none = .ok (cur, p)) :
    vals.incrementProposerPriority times = .ok { vals with validators := cur, proposer := p } := by
  rw [incrementProposerPriority_eq_map htotal hne htimes hrescale hshift, hinc]
  rfl

end

/-- **An increment** of a sound set succeeds, is exact and leaves a sound set, if it is moderate. -/
theorem ValidatorSet.Sound.increment (h : vals.Sound) (hne : vals.validators ≠ [])
    (htimes : 0 < times) (hmod : Call.Moderate vals (.increment times)) :
    IncrementExact vals times ∧
      ∃ shifted ks vals', Incremented vals times shifted ks vals' ∧ vals'.Sound := by
  have hmaxval := maxTotalVotingPower_eq
  have hmin64 := minInt64_eq
  have hmax64 := maxInt64_eq
  have hmax := h.total_le
  have hT := powerSum_pos hne h.pos
  have htotal := getTotalVotingPower_eq h.total h.pos
  obtain ⟨hexact, rescaled, shifted, hrescale, hshift, hshape, hcentred, -, hwithin⟩ :=
    centre_spec hne h.pos hmax h.within (by omega) (by omega) (by omega)
  have hpow := powerSum_of_shape hshape
  have hclimb : climb times.toNat shifted = climb times.toNat vals.validators := by
    unfold climb
    rw [hpow, length_of_shape hshape]
  have helect : Electable (-(2 * powerSum shifted)) (2 * powerSum shifted) shifted :=
    ⟨ne_nil_of_shape hshape hne, addresses_of_shape hshape ▸ h.nodup,
      power_of_shape hshape h.pos, hcentred.1, by rwa [hpow], by omega, by omega⟩
  unfold Call.Moderate at hmod
  have hroom : ∀ k ≤ times.toNat,
      2 * powerSum shifted + climb k shifted + powerSum shifted ≤ maxInt64 := by
    intro k hk
    have := helect.climb_mono hk
    omega
  obtain ⟨cur, p, ks, hinc, hlen, helected, -, hlast⟩ :=
    helect.incrementTimes_run times.toNat (hroom _ le_rfl) none
  obtain ⟨m, hm, rfl, hks⟩ := hlast (by omega)
  rw [hpow] at hinc
  refine ⟨?_, shifted, ks, { vals with validators := cur, proposer := some m },
    ⟨⟨rescaled, hrescale, hshift⟩, hshape, helect, hinc, by omega, helected, ⟨m, hm, rfl, hks⟩,
      incrementProposerPriority_eq htotal hne htimes hrescale hshift hinc, rfl⟩, ?_⟩
  · intro total ht
    rw [htotal] at ht
    cases ht
    refine ⟨hexact, fun r sh hr hs k hk cur' p' hcur' => ?_⟩
    rw [hrescale] at hr
    cases hr
    rw [hshift] at hs
    cases hs
    obtain ⟨c, p'', ks', hinc', -, -, hexact', -⟩ :=
      helect.incrementTimes_run k (hroom k hk.le) none
    rw [hpow, hcur'] at hinc'
    cases hinc'
    rwa [hpow] at hexact'
  · have hpow' := powerSum_of_shape (helected.shape.trans hshape)
    have hw := helected.within helect
    rw [hlen] at hw
    refine ⟨helected.nodup helect, power_of_shape (helected.shape.trans hshape) h.pos,
      h.total.trans hpow'.symm, hpow'.trans_le hmax, fun _ => ?_, fun v hv => ?_, fun v hv => ?_⟩
    · unfold Centred
      rw [helected.prioritySum_eq helect, length_of_shape helected.shape]
      exact hcentred
    · have := (hw v hv).1
      show -(2 * powerSum cur) ≤ _
      omega
    · have := (hw v hv).2
      omega

/-! ### Changes -/

theorem totalExact_of_powers {vals : List Validator}
    (hpow : ∀ v ∈ vals, 0 < v.votingPower ∧ v.votingPower ≤ maxTotalVotingPower) :
    TotalExact vals := by
  rintro pre v post rfl sum hsum
  have hmaxval := maxTotalVotingPower_eq
  have hv := hpow v (by simp)
  obtain ⟨-, h₁, h₂⟩ := updateTotalVotingPower_spec
    (fun u hu => (hpow u (mem_append_left _ hu)).1.le) hsum
  rw [safeAdd_of_fits (fits64_of_bounds (by omega))]

theorem sortByVotingPower_perm (vals : List Validator) : (sortByVotingPower vals).Perm vals :=
  perm_insertionSort _ vals

theorem newPriority_eq {tvp : ℤ} (h : 0 ≤ tvp ∧ tvp ≤ 2 * maxTotalVotingPower) :
    Fits64 (tvp + tvp / 8) ∧ Fits64 (-(tvp + tvp / 8)) ∧ newPriority tvp = -(tvp + tvp / 8) := by
  have hmaxval := maxTotalVotingPower_eq
  have h₁ : Fits64 (tvp + tvp / 8) := fits64_of_bounds (by omega)
  have h₂ : Fits64 (-(tvp + tvp / 8)) := fits64_of_bounds (by omega)
  exact ⟨h₁, h₂, by rw [newPriority, wrap64_of_fits h₁, wrap64_of_fits h₂]⟩

variable {changes : List Validator}

/-- A change that succeeds, from its parts. -/
theorem updateWithChangeSet_eq_ok_iff {allowDeletes : Bool} (hne : changes ≠ []) :
    vals.updateWithChangeSet changes allowDeletes = .ok vals' ↔
      ∃ tvp merged keys total rescaled shifted,
        vals.applyChangeSet changes allowDeletes = .ok (tvp, merged) ∧
        checkAllKeysHaveSameType "" merged = .ok keys ∧
        updateTotalVotingPower merged = .ok total ∧
        rescalePriorities (wrap64 (priorityWindowSizeFactor * total)) merged = .ok rescaled ∧
        shiftByAvgProposerPriority rescaled = .ok shifted ∧
        vals' = { vals with
          validators := sortByVotingPower shifted
          totalVotingPower := total
          allKeysHaveSameType := keys } := by
  unfold updateWithChangeSet
  rw [if_neg hne]
  constructor
  · intro h
    obtain ⟨⟨tvp, merged⟩, happly, h⟩ := ok_of_bind h
    obtain ⟨keys, hkeys, h⟩ := ok_of_bind h
    obtain ⟨total, htotal, h⟩ := ok_of_bind h
    obtain ⟨rescaled, hrescale, h⟩ := ok_of_bind h
    obtain ⟨shifted, hshift, h⟩ := ok_of_bind h
    cases h
    exact ⟨tvp, merged, keys, total, rescaled, shifted, happly, hkeys, htotal, hrescale, hshift, rfl⟩
  · rintro ⟨tvp, merged, keys, total, rescaled, shifted, happly, hkeys, htotal, hrescale, hshift, rfl⟩
    simp only [happly, hkeys, htotal, hrescale, hshift, bind, Except.bind, pure, Except.pure]

/-- **A change** of a sound set that succeeds is exact and leaves a sound set. -/
theorem ValidatorSet.Sound.update (h : vals.Sound) {allowDeletes : Bool} (hne : changes ≠ [])
    (hok : vals.updateWithChangeSet changes allowDeletes = .ok vals') :
    UpdateExact vals changes allowDeletes ∧ vals'.Sound ∧ vals'.validators ≠ [] ∧
      spread vals'.validators ≤ 2 * powerSum vals'.validators := by
  have hmaxval := maxTotalVotingPower_eq
  obtain ⟨tvp, merged, keys, total, rescaled, shifted, happly, -, htotal, hrescale, hshift, rfl⟩ :=
    (updateWithChangeSet_eq_ok_iff hne).mp hok
  obtain ⟨hnodup, hpow, htvp, hprio⟩ := applyChangeSet_spec h.nodup h.pos h.total h.total_le happly
  obtain ⟨hfits₁, hfits₂, hnew⟩ := newPriority_eq htvp
  obtain ⟨rfl, htotal0, htotalmax⟩ := updateTotalVotingPower_spec (fun v hv => (hpow v hv).1.le) htotal
  have hne' : merged ≠ [] := by
    rintro rfl
    cases hrescale
  have hpos : ∀ v ∈ merged, 0 < v.votingPower := fun v hv => (hpow v hv).1
  -- those who stay are where they were, those who join are at most `2.25` times below zero
  have hw : Within (-(2 * maxTotalVotingPower + 2 * maxTotalVotingPower / 8))
      (15 * maxTotalVotingPower / 4) merged := by
    intro v hv
    rcases hprio v hv with ⟨u, hu, huv⟩ | hv'
    · have h₁ := h.within u hu
      have h₂ := h.total_le
      omega
    · omega
  obtain ⟨hexact, rescaled', shifted', hrescale', hshift', hshape, hcentred, hwindow, hwithin⟩ :=
    centre_spec hne' hpos htotalmax hw (by omega) (by omega) (by omega)
  rw [hrescale'] at hrescale
  cases hrescale
  rw [hshift'] at hshift
  cases hshift
  have hperm := sortByVotingPower_perm shifted
  have hpow' : powerSum (sortByVotingPower shifted) = powerSum merged :=
    ((hperm.map _).sum_eq).trans (powerSum_of_shape hshape)
  have hne'' : shifted ≠ [] := ne_nil_of_shape hshape hne'
  refine ⟨?_, ⟨?_, ?_, hpow'.symm, hpow'.trans_le htotalmax, fun _ => ?_, ?_, ?_⟩, ?_, ?_⟩
  · intro tvp' merged' happly'
    rw [happly] at happly'
    cases happly'
    refine ⟨hfits₁, hfits₂, totalExact_of_powers hpow, fun total' ht' => ?_⟩
    rw [htotal] at ht'
    cases ht'
    exact hexact
  · have hnodup' : (addresses shifted).Nodup := addresses_of_shape hshape ▸ hnodup
    exact (hperm.map Validator.address).nodup_iff.mpr hnodup'
  · exact fun v hv => power_of_shape hshape hpos v (hperm.mem_iff.mp hv)
  · unfold Centred prioritySum
    rw [(hperm.map _).sum_eq, hperm.length_eq]
    exact hcentred
  · intro v hv
    have := (hwithin v (hperm.mem_iff.mp hv)).1
    show -(2 * powerSum (sortByVotingPower shifted)) ≤ _
    omega
  · intro v hv
    have := (hwithin v (hperm.mem_iff.mp hv)).2
    omega
  · exact fun hnil => hne'' (perm_nil.mp (hnil ▸ hperm.symm))
  · show spread (sortByVotingPower shifted) ≤ 2 * powerSum (sortByVotingPower shifted)
    rw [hpow', spread_perm hne'' (hwithin.fits (by unfold minInt64; omega) (by unfold maxInt64; omega))
      hperm]
    exact hwindow

/-! ### Whole runs -/

theorem next_eq_some {c : Call} (h : next vals c = some vals') :
    c.apply vals = .ok vals' := by
  unfold next at h
  cases happ : c.apply vals with
  | error e => rw [happ] at h; cases h
  | ok v => rw [happ] at h; cases h; rfl

/-- A successful call is one of the two kinds, on a set it makes sense for. -/
theorem ValidatorSet.Sound.call (h : vals.Sound) {c : Call} (hmod : c.Moderate vals)
    (hok : c.apply vals = .ok vals') : c.Exact vals ∧ vals'.Sound := by
  cases c with
  | update changes =>
    by_cases hne : changes = []
    · subst hne
      cases hok
      exact ⟨fun h => absurd rfl h, h⟩
    · obtain ⟨hexact, hsound, -⟩ := h.update hne hok
      exact ⟨fun _ => hexact, hsound⟩
  | increment times =>
    obtain ⟨hne, htimes⟩ := of_incrementProposerPriority_ok hok
    obtain ⟨hexact, shifted, ks, vals'', hinc, hsound⟩ := h.increment hne htimes hmod
    have heq : vals'' = vals' := Except.ok.inj (hinc.eq.symm.trans hok)
    exact ⟨hexact, heq ▸ hsound⟩

/-- One increment is always moderate. -/
theorem moderate_one (h : vals.Sound) : Call.Moderate vals (.increment 1) := by
  have hmaxval := maxTotalVotingPower_eq
  have hle : climb 1 vals.validators ≤ powerSum vals.validators := by
    have h0 : 0 ≤ powerSum vals.validators :=
      sum_nonneg (by simpa using fun v hv => (h.pos v hv).le)
    have h1 : (min 1 (Nat.log 2 vals.validators.length) : ℕ) ≤ (1 : ℤ) := by
      exact_mod_cast min_le_left _ _
    unfold climb
    exact (mul_le_mul_of_nonneg_right h1 h0).trans (one_mul _).le
  have := h.total_le
  unfold Call.Moderate
  show 4 * (2 * _ + climb 1 vals.validators) ≤ _
  omega

theorem newValidatorSet_sound {valz : List Validator} (h : newValidatorSet valz = .ok vals) :
    NewExact valz ∧ vals.Sound := by
  unfold newValidatorSet at h
  split at h
  · cases h
  · cases h
  rename_i base hbase
  by_cases hne : valz = []
  · subst hne
    cases hbase
    cases h
    exact ⟨fun h => absurd rfl h, sound_empty⟩
  · rw [if_pos hne] at h
    obtain ⟨hexact, hsound, -⟩ := sound_empty.update hne hbase
    obtain ⟨hexact', hsound'⟩ := hsound.call (moderate_one hsound) h
    refine ⟨fun _ => ⟨hexact, fun vals' hvals' => ?_⟩, hsound'⟩
    rw [hbase] at hvals'
    cases hvals'
    exact hexact'

theorem steps_sound {s : ValidatorSet} (h : s.Sound)
    (hrun : Steps next (fun vals c => c.Moderate vals) s vals) : vals.Sound :=
  hrun.invariant h fun _ _ _ hi hok hn => (hi.call hok (next_eq_some hn)).2

/-- **No number leaves 64 bits**, in any run in which no call lets a priority climb too far: not when
the set is made, and not in any call that succeeds after any number of others. -/
theorem arithmetic_exact {valz : List Validator} {s : ValidatorSet}
    (hnew : newValidatorSet valz = .ok s) :
    NewExact valz ∧ ∀ vals, Steps next (fun vals c => c.Moderate vals) s vals →
      ∀ (c : Call) (vals' : ValidatorSet), c.Moderate vals → c.apply vals = .ok vals' →
        c.Exact vals :=
  ⟨(newValidatorSet_sound hnew).1, fun _ hrun _ _ hmod hok =>
    ((steps_sound (newValidatorSet_sound hnew).2 hrun).call hmod hok).1⟩

/-- Two validators, as `NewValidatorSet` leaves them. -/
def pair : ValidatorSet :=
  let v : Validator := ⟨[1], none, 3, -1⟩
  ⟨[v, ⟨[2], none, 1, 1⟩], some v, 4, true⟩

theorem arithmetic_exact_pair :
    newValidatorSet [⟨[1], none, 3, 0⟩, ⟨[2], none, 1, 0⟩] = .ok pair ∧
      NewExact [⟨[1], none, 3, 0⟩, ⟨[2], none, 1, 0⟩] ∧ Call.Exact pair (.increment 4) := by
  have hnew : newValidatorSet [⟨[1], none, 3, 0⟩, ⟨[2], none, 1, 0⟩] = .ok pair := by rfl
  obtain ⟨h₁, h₂⟩ := arithmetic_exact hnew
  exact ⟨hnew, h₁, h₂ pair (.refl _) (.increment 4) pair (by decide) rfl⟩

/-! ### A run that overflows

Forty-five validators of power one join a set with a single large one. When the large one leaves,
their powers are raised to the highest total power and 555 others join: these start far below zero,
which leaves the forty-five about `1.85` total powers above it. Then a single call increments 2883
times. The powers are such that the heaviest of the validators climb another two total powers. When
finally all but one of the forty-five leave and a new validator takes over their power, the
difference between the two is so large that the sum in `RescalePriorities` wraps around. The ratio
is negative then, and dividing by it turns the priorities upside down. -/

namespace Overflow

open Cohort

def addr (i : ℕ) : Bytes := [UInt8.ofNat (i / 256), UInt8.ofNat (i % 256)]

/-- `n` validators with the addresses from `base` on. -/
def crowd (base n : ℕ) (power priority : ℤ) : List Validator :=
  (range n).map fun i => ⟨addr (base + i), none, power, priority⟩

def large (power priority : ℤ) : Validator := ⟨addr 5000, none, power, priority⟩

def founders : List Validator := large 896716725805325340 0 :: crowd 0 45 1 0

/-- The large validator leaves, the powers of the others are raised, and 555 join. -/
def handover : List Validator :=
  large 0 0 :: (crowd 0 6 175992523071375616 0 ++ crowd 6 7 10946319927633732 0 ++
    crowd 13 5 1573275111911390 0 ++ crowd 18 7 1147485155742829 0 ++
    crowd 25 7 227454715097007 0 ++ crowd 32 13 219320925363130 0 ++ crowd 256 555 1 0)

/-- All but one of the heaviest leave, and a new validator takes over their power. -/
def takeover : List Validator :=
  ⟨addr 6000, none, 976928981535470804, 0⟩ :: (crowd 0 5 0 0 ++ crowd 6 39 0 0)

def total : ℕ := 1152921504606846867

/-- By how much levels are above priorities. -/
def offset : ℕ := 1152921504606846975

/-- The cohorts after the handover. -/
def before : List Cohort :=
  [⟨175992523071375616, 6, 0, 3285826288129513679, 0⟩,
    ⟨10946319927633732, 7, 6, 3285826288129513679, 0⟩,
    ⟨1573275111911390, 5, 13, 3285826288129513679, 0⟩,
    ⟨1147485155742829, 7, 18, 3285826288129513679, 0⟩,
    ⟨227454715097007, 7, 25, 3285826288129513679, 0⟩,
    ⟨219320925363130, 13, 32, 3285826288129513679, 0⟩, ⟨1, 555, 256, 979983278915819946, 0⟩]

/-- The cohorts 2883 elections later. -/
def after : List Cohort :=
  [⟨175992523071375616, 6, 0, 5692651285106486861, 5⟩,
    ⟨10946319927633732, 7, 6, 3715186015112697626, 0⟩,
    ⟨1573275111911390, 5, 13, 3209892417342663581, 0⟩,
    ⟨1147485155742829, 7, 18, 3135261478315549085, 0⟩,
    ⟨227454715097007, 7, 25, 2788656727147337993, 0⟩,
    ⟨219320925363130, 13, 32, 2765207011344570602, 0⟩, ⟨1, 555, 256, 979983278915822829, 0⟩]

def founded : ValidatorSet :=
  ⟨large 896716725805325340 (-45) :: crowd 0 45 1 1, some (large 896716725805325340 (-45)),
    896716725805325385, true⟩

def setOf (cs : List Cohort) (p : Option Validator) : ValidatorSet :=
  ⟨members addr total offset cs, p, total, true⟩

/-- Whether a change succeeds although the sum in `RescalePriorities` leaves 64 bits. -/
def overflows (vals : ValidatorSet) (changes : List Validator) : Bool :=
  match vals.updateWithChangeSet changes true, vals.applyChangeSet changes true with
  | .ok _, .ok (_, merged) =>
    match updateTotalVotingPower merged with
    | .error _ => false
    | .ok total =>
      !decide (Fits64 (computeMaxMinPriorityDiff merged + priorityWindowSizeFactor * total - 1))
  | _, _ => false

theorem handover_eq :
    founded.updateWithChangeSet handover true = .ok (setOf before founded.proposer) := by
  decide +kernel

/-- What the functions of the model return along the rest of the run. The handover is apart from it,
since the kernel keeps all that it has evaluated of one statement. -/
theorem evaluation :
    newValidatorSet founders = .ok founded ∧
      rescalePriorities (wrap64 (priorityWindowSizeFactor * total))
        (members addr total offset before) = .ok (members addr total offset before) ∧
      shiftByAvgProposerPriority (members addr total offset before) =
        .ok (members addr total offset before) ∧
      advanceTimes total 6917529027641081850 2883 before = some after ∧
      ((members addr total offset before).IsChain fun a b => a.address < b.address) ∧
      powerSum (members addr total offset before) = total ∧
      members addr total offset before ≠ [] ∧
      overflows (setOf after none) takeover = true := by
  decide +kernel

theorem increment_before (p : Option Validator) :
    ∃ p', (setOf before p).incrementProposerPriority 2883 = .ok (setOf after p') := by
  have hpos : ∀ v ∈ members addr total offset before, 0 < v.votingPower := by
    intro v hv
    obtain ⟨c, hc, i, -, rfl⟩ := mem_members.mp hv
    have hpow : ∀ c ∈ before, 0 < c.power := by decide
    exact Int.natCast_pos.mpr (hpow c hc)
  obtain ⟨-, hrescale, hshift, hadvance, hchain, hsum, hne, -⟩ := evaluation
  obtain ⟨p', hp'⟩ := incrementTimes_members (by decide) hchain.pairwise hpos hsum (by decide)
    (by decide) hadvance none
  have htotal : (setOf before p).getTotalVotingPower = .ok total :=
    if_neg (show ¬(total : ℤ) = 0 by decide)
  exact ⟨p', incrementProposerPriority_eq htotal hne (by decide) hrescale hshift hp'⟩

/-- A change does not look at the proposer. -/
theorem updateWithChangeSet_proposer (hne : changes ≠ []) (p : Option Validator)
    (h : vals.updateWithChangeSet changes true = .ok vals') :
    updateWithChangeSet { vals with proposer := p } changes true =
      .ok { vals' with proposer := p } := by
  obtain ⟨tvp, merged, keys, total, rescaled, shifted, happly, hkeys, htotal, hrescale, hshift, rfl⟩ :=
    (updateWithChangeSet_eq_ok_iff hne).mp h
  exact (updateWithChangeSet_eq_ok_iff hne).mpr
    ⟨tvp, merged, keys, total, rescaled, shifted, happly, hkeys, htotal, hrescale, hshift, rfl⟩

theorem not_exact_of_overflows (hne : changes ≠ []) (h : overflows vals changes = true) :
    ∃ vals', vals.updateWithChangeSet changes true = .ok vals' ∧
      ¬Call.Exact vals (.update changes) := by
  unfold overflows at h
  split at h
  · rename_i vals' tvp merged hok happly
    split at h
    · cases h
    · rename_i total htotal
      refine ⟨vals', hok, fun hexact => ?_⟩
      obtain ⟨-, -, -, hcentre⟩ := hexact hne tvp merged happly
      have hceil := (hcentre total htotal).rescale.ceil
      rw [decide_eq_true hceil] at h
      cases h
  · cases h

/-- The whole run. -/
theorem reachable_after : ∃ p, Reachable next founded (setOf after p) := by
  obtain ⟨p, hp⟩ := increment_before founded.proposer
  have hone : Reachable next founded (setOf before founded.proposer) :=
    .tail (a := .update handover) (.refl _) trivial (congrArg Except.toOption handover_eq)
  exact ⟨p, .tail (a := .increment 2883) hone trivial (congrArg Except.toOption hp)⟩

end Overflow

/-- **A call with many increments prepares an overflow.** From a set that `NewValidatorSet` made, a
change, one call of `IncrementProposerPriority` and another change lead to a sum that leaves 64
bits. -/
theorem rescaling_overflows : ∃ valz s vals changes vals', newValidatorSet valz = .ok s ∧
    Reachable next s vals ∧ vals.updateWithChangeSet changes true = .ok vals' ∧
    ¬Call.Exact vals (.update changes) := by
  obtain ⟨hnew, -, -, -, -, -, -, hoverflows⟩ := Overflow.evaluation
  obtain ⟨p, hreach⟩ := Overflow.reachable_after
  obtain ⟨vals', hok, hexact⟩ := Overflow.not_exact_of_overflows (by decide) hoverflows
  have hok' := Overflow.updateWithChangeSet_proposer (by decide) p hok
  exact ⟨_, _, _, _, { vals' with proposer := p }, hnew, hreach, hok', hexact⟩

end CometBFT.Types
