import CometBFT.Types.Overflow

/-!
# The rotation of proposers

Each call of `IncrementProposerPriority` rescales and centres the priorities before its increments.
Centring changes nothing after the first time. Rescaling changes nothing as long as the priorities
stay within a window of twice the total power; elections do not keep them there, and from then on it
matters how many calls the increments come in.

## Main results

* `increments_compose` — one call or two, as long as the window is kept in between
* `skipping_changes_proposer` — a set where the two ways lead to different proposers
* `proposers_proportional` — everyone proposes as often as their power says, as long as the window is
  kept
* `proposers_disproportional` — a set that leaves the window
-/

namespace CometBFT.Types

open Validators List Validator

/-! ### When a call starts with nothing -/

variable {vals : ValidatorSet}

/-- Within the window, rescaling and centring change nothing of a sound set. -/
theorem ValidatorSet.Sound.centre_of_window (h : vals.Sound) (hne : vals.validators ≠ [])
    (hwindow : spread vals.validators ≤ 2 * powerSum vals.validators) :
    rescalePriorities (wrap64 (priorityWindowSizeFactor * powerSum vals.validators))
        vals.validators = .ok vals.validators ∧
      shiftByAvgProposerPriority vals.validators = .ok vals.validators := by
  have hmaxval := maxTotalVotingPower_eq
  have hmin64 := minInt64_eq
  have hmax64 := maxInt64_eq
  have hmax := h.total_le
  have h0 := spread_nonneg hne
  have hfits : Fits64 (2 * powerSum vals.validators) := ⟨by omega, by omega⟩
  have hw := h.within
  constructor
  · rw [show priorityWindowSizeFactor * powerSum vals.validators = 2 * powerSum vals.validators from
      rfl, wrap64_of_fits hfits]
    exact rescalePriorities_of_le hne ⟨by omega, by omega⟩ hwindow
  · exact shiftByAvg_of_centred hne (h.centred hne) (hw.fits (by omega) (by omega))

theorem incrementTimes_proposer (total : ℤ) {n : ℕ} (hn : n ≠ 0) (vals : List Validator)
    (p p' : Option Validator) : incrementTimes total n vals p = incrementTimes total n vals p' := by
  obtain ⟨m, rfl⟩ := Nat.exists_eq_succ_of_ne_zero hn
  rfl

/-- A call that leaves the priorities within the window, and another one. -/
theorem ValidatorSet.Sound.increment_add {mid : ValidatorSet} (h : mid.Sound)
    (hne' : mid.validators ≠ []) (htotal : vals.getTotalVotingPower = .ok (powerSum mid.validators))
    {a b : ℤ} (hb : 0 < b) (hmid : vals.incrementProposerPriority a = .ok mid)
    (hwindow : spread mid.validators ≤ 2 * powerSum mid.validators) :
    mid.incrementProposerPriority b = vals.incrementProposerPriority (a + b) := by
  obtain ⟨hne, ha⟩ := of_incrementProposerPriority_ok hmid
  obtain ⟨total, rescaled, shifted, htotal', hrescale, hshift, hloop, hrest⟩ :=
    incrementProposerPriority_eq_ok hmid
  obtain rfl : powerSum mid.validators = total := Except.ok.inj (htotal.symm.trans htotal')
  obtain ⟨hrescale', hshift'⟩ := h.centre_of_window hne' hwindow
  rw [incrementProposerPriority_eq_map htotal hne (by omega) hrescale hshift,
    incrementProposerPriority_eq_map (getTotalVotingPower_eq h.total h.pos) hne' hb hrescale' hshift',
    Int.toNat_add ha.le hb.le, incrementTimes_add, hloop]
  show _ = Except.map _ (incrementTimes _ _ _ _)
  rw [incrementTimes_proposer _ (by omega) _ mid.proposer none, hrest]

/-- **One call or two.** If the first of two calls leaves the priorities within the window, the two
do the same as one call with all the increments. -/
theorem increments_compose {valz : List Validator} {s vals : ValidatorSet}
    (hnew : newValidatorSet valz = .ok s)
    (hrun : Steps next (fun vals c => c.Moderate vals) s vals) {a b : ℤ} (ha : 0 < a) (hb : 0 < b)
    (hmod : Call.Moderate vals (.increment a)) {mid : ValidatorSet}
    (hmid : vals.incrementProposerPriority a = .ok mid)
    (hwindow : spread mid.validators ≤ 2 * powerSum mid.validators) :
    mid.incrementProposerPriority b = vals.incrementProposerPriority (a + b) := by
  have h := steps_sound (newValidatorSet_sound hnew).2 hrun
  obtain ⟨hne, -⟩ := of_incrementProposerPriority_ok hmid
  obtain ⟨-, shifted, ks, mid', hinc, hsound⟩ := h.increment hne ha hmod
  obtain rfl : mid' = mid := Except.ok.inj (hinc.eq.symm.trans hmid)
  have hshape := hinc.elected.shape.trans hinc.shape
  exact hsound.increment_add (ne_nil_of_shape hshape hne)
    (powerSum_of_shape hshape ▸ getTotalVotingPower_eq h.total h.pos) hb hmid hwindow

theorem increments_compose_pair :
    newValidatorSet [⟨[1], none, 3, 0⟩, ⟨[2], none, 1, 0⟩] = .ok pair ∧
      ∃ mid, pair.incrementProposerPriority 2 = .ok mid ∧
        mid.incrementProposerPriority 5 = pair.incrementProposerPriority (2 + 5) := by
  have hnew : newValidatorSet [⟨[1], none, 3, 0⟩, ⟨[2], none, 1, 0⟩] = .ok pair := by rfl
  have hmid : pair.incrementProposerPriority 2 =
      .ok ⟨[⟨[1], none, 3, 1⟩, ⟨[2], none, 1, -1⟩], some ⟨[2], none, 1, -1⟩, 4, true⟩ := by
    rfl
  exact ⟨hnew, _, hmid, increments_compose hnew (.refl _) (by decide) (by decide)
    (by decide) hmid (by decide)⟩

/-- **Skipping a round changes the proposer.** Between two calls the second one rescales, within one
call nothing does. -/
theorem skipping_changes_proposer : ∃ (valz changes : List Validator)
    (s vals mid vals₁ vals₂ : ValidatorSet) (a b : ℤ), newValidatorSet valz = .ok s ∧
      s.updateWithChangeSet changes true = .ok vals ∧ 0 < a ∧ 0 < b ∧
      vals.incrementProposerPriority a = .ok mid ∧ mid.incrementProposerPriority b = .ok vals₁ ∧
      vals.incrementProposerPriority (a + b) = .ok vals₂ ∧
      vals₁.getProposer.map (Option.map address) = .ok (some [1]) ∧
      vals₂.getProposer.map (Option.map address) = .ok (some [2]) := by
  refine ⟨[⟨[1], none, 4, 0⟩, ⟨[2], none, 3, 0⟩, ⟨[4], none, 17, 0⟩],
    [⟨[3], none, 1, 0⟩, ⟨[4], none, 0, 0⟩],
    ⟨[⟨[4], none, 17, -7⟩, ⟨[1], none, 4, 4⟩, ⟨[2], none, 3, 3⟩], some ⟨[4], none, 17, -7⟩, 24, true⟩,
    ⟨[⟨[1], none, 4, 6⟩, ⟨[2], none, 3, 5⟩, ⟨[3], none, 1, -10⟩], some ⟨[4], none, 17, -7⟩, 8, true⟩,
    ⟨[⟨[1], none, 4, 2⟩, ⟨[2], none, 3, 8⟩, ⟨[3], none, 1, -9⟩], some ⟨[1], none, 4, 2⟩, 8, true⟩,
    ⟨[⟨[1], none, 4, -3⟩, ⟨[2], none, 3, 5⟩, ⟨[3], none, 1, -1⟩], some ⟨[1], none, 4, -3⟩, 8, true⟩,
    ⟨[⟨[1], none, 4, 6⟩, ⟨[2], none, 3, 1⟩, ⟨[3], none, 1, -6⟩], some ⟨[2], none, 3, 1⟩, 8, true⟩,
    1, 3, ?_⟩
  decide +kernel

/-! ### A whole rotation -/

/-- `n` calls of `IncrementProposerPriority(1)`: the addresses that `GetProposer` returns before the
first and after each of them, and the set they leave. -/
def rotation : ℕ → ValidatorSet → Except Failure (List (Option Bytes) × ValidatorSet)
  | 0, vals => do
    let proposer ← vals.getProposer
    return ([proposer.map address], vals)
  | n + 1, vals => do
    let proposer ← vals.getProposer
    let vals' ← vals.incrementProposerPriority 1
    let (proposers, last) ← rotation n vals'
    return (proposer.map address :: proposers, last)

theorem Validators.Elected.append {vals mid cur : List Validator} {ks ks' : List Bytes}
    (h : Elected vals ks mid) (h' : Elected mid ks' cur) : Elected vals (ks ++ ks') cur := by
  refine ⟨h'.shape.trans h.shape, h.run.append ?_⟩
  have hrun := h'.run
  rwa [addresses_of_shape h.shape, funext fun a => powerOf_of_shape h.shape a] at hrun

/-- Within the window, a call is one election. -/
theorem ValidatorSet.Sound.increment_one (h : vals.Sound) (hne : vals.validators ≠ [])
    (hwindow : spread vals.validators ≤ 2 * powerSum vals.validators) :
    ∃ vals' m, vals.incrementProposerPriority 1 = .ok vals' ∧ vals'.Sound ∧
      Elected vals.validators [m.address] vals'.validators ∧ vals'.proposer = some m := by
  obtain ⟨-, shifted, ks, vals', hinc, hsound⟩ := h.increment hne Int.one_pos (moderate_one h)
  obtain ⟨rescaled, hrescale, hshift⟩ := hinc.centre
  obtain ⟨hrescale', hshift'⟩ := h.centre_of_window hne hwindow
  obtain rfl : vals.validators = rescaled := Except.ok.inj (hrescale'.symm.trans hrescale)
  obtain rfl : vals.validators = shifted := Except.ok.inj (hshift'.symm.trans hshift)
  obtain ⟨m, -, hm, hlast⟩ := hinc.proposer
  have hks : ks = [m.address] := by
    obtain ⟨k, rfl⟩ := length_eq_one_iff.mp (by exact_mod_cast hinc.length)
    cases hlast
    rfl
  exact ⟨vals', m, hinc.eq, hsound, hks ▸ hinc.elected, hm⟩

theorem getProposer_of_some {m : Validator} (hne : vals.validators ≠ [])
    (h : vals.proposer = some m) : vals.getProposer = .ok (some m) := by
  unfold ValidatorSet.getProposer
  rw [if_neg hne, h]

/-- As long as the window is kept, `n` calls are `n` elections. -/
theorem rotation_spec (n : ℕ) {m : Validator} (h : vals.Sound) (hne : vals.validators ≠ [])
    (hm : vals.proposer = some m) (hwindow : ∀ k < n, ∀ ps cur, rotation k vals = .ok (ps, cur) →
      spread cur.validators ≤ 2 * powerSum cur.validators) :
    ∃ ks last, rotation n vals = .ok (some m.address :: ks.map some, last) ∧ ks.length = n ∧
      Elected vals.validators ks last.validators := by
  have hprop := getProposer_of_some hne hm
  have hzero : rotation 0 vals = .ok ([some m.address], vals) := by
    unfold rotation
    rw [hprop]
    rfl
  induction n generalizing vals m with
  | zero => exact ⟨[], vals, hzero, rfl, rfl, .nil⟩
  | succ n ih =>
    obtain ⟨vals', m', hinc, hsound, helected, hm'⟩ :=
      h.increment_one hne (hwindow 0 n.succ_pos _ _ hzero)
    have hne' := ne_nil_of_shape helected.shape hne
    have hsucc : ∀ k, rotation (k + 1) vals =
        (rotation k vals').bind fun r => .ok (some m.address :: r.1, r.2) := by
      intro k
      rw [rotation, hprop]
      show (vals.incrementProposerPriority 1 >>= _) = _
      rw [hinc]
      rfl
    have hprop' := getProposer_of_some hne' hm'
    obtain ⟨ks, last, hrot, hlen, helected'⟩ := ih hsound hne' hm' (fun k hk ps cur hcur =>
      hwindow (k + 1) (by omega) (some m.address :: ps) cur (by rw [hsucc, hcur]; rfl)) hprop'
      (by unfold rotation; rw [hprop']; rfl)
    refine ⟨m'.address :: ks, last, ?_, congrArg Nat.succ hlen, helected.append helected'⟩
    rw [hsucc, hrot]
    rfl

/-- Validators that all join at once start at zero. -/
theorem priority_zero_of_update {vals' : ValidatorSet} (h : vals.Sound)
    (hempty : vals.validators = []) {changes : List Validator} {allowDeletes : Bool}
    (hne : changes ≠ []) (hok : vals.updateWithChangeSet changes allowDeletes = .ok vals') :
    ∀ v ∈ vals'.validators, v.proposerPriority = 0 := by
  have hmaxval := maxTotalVotingPower_eq
  have hmin64 := minInt64_eq
  have hmax64 := maxInt64_eq
  obtain ⟨tvp, merged, keys, total, rescaled, shifted, happly, -, htotal, hrescale, hshift, rfl⟩ :=
    (updateWithChangeSet_eq_ok_iff hne).mp hok
  obtain ⟨-, hpow, htvp, hprio⟩ := applyChangeSet_spec h.nodup h.pos h.total h.total_le happly
  obtain ⟨-, hfits, hnew⟩ := newPriority_eq htvp
  obtain ⟨rfl, htotal0, htotalmax⟩ := updateTotalVotingPower_spec (fun v hv => (hpow v hv).1.le) htotal
  have hne' : merged ≠ [] := by
    rintro rfl
    cases hrescale
  have hw : Within (newPriority tvp) (newPriority tvp) merged := by
    intro v hv
    rcases hprio v hv with ⟨u, hu, -⟩ | hv'
    · rw [hempty] at hu
      exact absurd hu not_mem_nil
    · exact ⟨hv'.ge, hv'.le⟩
  rw [← hnew] at hfits
  have hspread : spread merged ≤ 0 := by
    have := hw.spread_le hne' hfits.1 hfits.2
    omega
  have h0 := spread_nonneg hne'
  have hfits' : Fits64 (2 * powerSum merged) := ⟨by omega, by omega⟩
  rw [show priorityWindowSizeFactor * powerSum merged = 2 * powerSum merged from rfl,
    wrap64_of_fits hfits',
    rescalePriorities_of_le hne' ⟨by omega, by omega⟩ (by omega)] at hrescale
  obtain rfl : merged = rescaled := Except.ok.inj hrescale
  obtain ⟨shifted', hshift', -, -, -, hwithin, -⟩ :=
    shiftByAvg_spec hne' hw hfits.1 hfits.2 hspread (by omega)
  obtain rfl : shifted' = shifted := Except.ok.inj (hshift'.symm.trans hshift)
  intro v hv
  have := hwithin v ((sortByVotingPower_perm shifted').mem_iff.mp hv)
  omega

/-- Lists that agree in all but the priorities, and in the priorities. -/
theorem eq_of_shape_of_zero {vals vals' : List Validator}
    (hshape : vals'.map shape = vals.map shape)
    (h : ∀ v ∈ vals, v.proposerPriority = 0) (h' : ∀ v ∈ vals', v.proposerPriority = 0) :
    vals' = vals := by
  have hback : ∀ l : List Validator, (∀ v ∈ l, v.proposerPriority = 0) →
      (l.map shape).map (fun t => (⟨t.1, t.2.1, t.2.2, 0⟩ : Validator)) = l := by
    intro l hl
    rw [map_map]
    refine (map_congr_left fun v hv => ?_).trans (map_id l)
    show (⟨v.address, v.pubKey, v.votingPower, 0⟩ : Validator) = v
    rw [← hl v hv]
  rw [← hback vals' h', hshape, hback vals h]

/-- **Everyone proposes in proportion to their power**, if the priorities stay within the window:
among as many proposers in a row as there is power, from the one of the new set on, every validator
appears as often as its power says, and then all priorities are back where they were before the first
increment. -/
theorem proposers_proportional {valz : List Validator} (hne : valz ≠ []) {s : ValidatorSet}
    (hnew : newValidatorSet valz = .ok s)
    (hwindow : ∀ k < s.totalVotingPower.toNat - 1, ∀ ps cur, rotation k s = .ok (ps, cur) →
      spread cur.validators ≤ 2 * powerSum cur.validators) :
    ∃ ps last base, rotation (s.totalVotingPower.toNat - 1) s = .ok (ps, last) ∧
      (∀ v ∈ s.validators, (ps.count (some v.address) : ℤ) = v.votingPower) ∧
      ValidatorSet.updateWithChangeSet { allKeysHaveSameType := true } valz false = .ok base ∧
      last.validators = base.validators := by
  have hsound := (newValidatorSet_sound hnew).2
  unfold newValidatorSet at hnew
  split at hnew
  · cases hnew
  · cases hnew
  rename_i base hbase
  rw [if_pos hne] at hnew
  obtain ⟨-, hbsound, hbne, -⟩ := sound_empty.update hne hbase
  have hzero := priority_zero_of_update sound_empty rfl hne hbase
  -- the first election, in `NewValidatorSet`
  have hmaxval := maxTotalVotingPower_eq
  have hw : Within 0 0 base.validators := fun v hv => ⟨(hzero v hv).ge, (hzero v hv).le⟩
  have hspread := hw.spread_le hbne (by decide) (by decide)
  have hT := powerSum_pos hbne hbsound.pos
  obtain ⟨s', m, hinc, -, hone, hm⟩ := hbsound.increment_one hbne (by omega)
  obtain rfl : s' = s := Except.ok.inj (hinc.symm.trans hnew)
  -- the others
  obtain ⟨ks, last, hrot, hlen, helected⟩ :=
    rotation_spec _ hsound (ne_nil_of_shape hone.shape hbne) hm hwindow
  have hall := hone.append helected
  have htotal : s'.totalVotingPower = powerSum base.validators :=
    hsound.total.trans (powerSum_of_shape hone.shape)
  have hlen' : (([m.address] ++ ks).length : ℤ) =
      ∑ a ∈ (addresses base.validators).toFinset, powerOf base.validators a := by
    rw [sum_powerOf hbsound.nodup, length_append, length_singleton, hlen]
    omega
  have hfair := fun {a} => hall.run.fair (i := a)
    (fun a ha => by
      obtain ⟨v, hv, rfl⟩ := exists_of_mem_addresses ha
      exact powerOf_of_mem hbsound.nodup hv ▸ hbsound.pos v hv)
    (fun a ha => by
      obtain ⟨v, hv, rfl⟩ := exists_of_mem_addresses ha
      exact (priorityOf_of_mem hbsound.nodup hv).trans (hzero v hv)) hlen'
  refine ⟨_, last, base, hrot, fun v hv => ?_, hbase, eq_of_shape_of_zero hall.shape hzero ?_⟩
  · have hmem : v.address ∈ (addresses base.validators).toFinset :=
      addresses_of_shape hone.shape ▸ mem_addresses hv
    have hcount : (some m.address :: ks.map some).count (some v.address) =
        ([m.address] ++ ks).count v.address :=
      count_map_of_injective ([m.address] ++ ks) some (Option.some_injective _) v.address
    have hpower : (([m.address] ++ ks).count v.address : ℤ) = powerOf base.validators v.address := by
      convert (hfair hmem).1
    rw [hcount, hpower, ← powerOf_of_shape hone.shape, powerOf_of_mem hsound.nodup hv]
  · intro v hv
    have hnodup : (addresses last.validators).Nodup :=
      addresses_of_shape hall.shape ▸ hbsound.nodup
    rw [← priorityOf_of_mem hnodup hv]
    exact (hfair (addresses_of_shape hall.shape ▸ mem_addresses hv)).2

theorem proposers_proportional_pair :
    newValidatorSet [⟨[1], none, 3, 0⟩, ⟨[2], none, 1, 0⟩] = .ok pair ∧
      ∃ ps last, rotation 3 pair = .ok (ps, last) ∧ ps.count (some [1]) = 3 := by
  have hnew : newValidatorSet [⟨[1], none, 3, 0⟩, ⟨[2], none, 1, 0⟩] = .ok pair := by rfl
  have hrot : ∀ k < 3, ∃ r, rotation k pair = .ok r ∧
      spread r.2.validators ≤ 2 * powerSum r.2.validators := by
    intro k hk
    interval_cases k
    all_goals exact ⟨_, rfl, by decide⟩
  obtain ⟨ps, last, -, h, hcount, -, -⟩ := proposers_proportional (by decide) hnew
    (fun k hk ps cur hcur => by
      obtain ⟨r, hr, hle⟩ := hrot k hk
      rw [hcur] at hr
      cases hr
      exact hle)
  exact ⟨hnew, ps, last, h, Int.ofNat.inj (hcount ⟨[1], none, 3, -1⟩ (by decide))⟩

/-- Thirteen validators: three heavy ones, eight of middle power and two light ones. -/
def thirteen : List Validator :=
  [⟨[1], none, 78, 0⟩, ⟨[2], none, 78, 0⟩, ⟨[3], none, 78, 0⟩, ⟨[4], none, 8, 0⟩,
    ⟨[5], none, 8, 0⟩, ⟨[6], none, 8, 0⟩, ⟨[7], none, 8, 0⟩, ⟨[8], none, 8, 0⟩, ⟨[9], none, 8, 0⟩,
    ⟨[10], none, 8, 0⟩, ⟨[11], none, 8, 0⟩, ⟨[12], none, 3, 0⟩, ⟨[13], none, 1, 0⟩]

/-- **A set that leaves the window.** Near the end of the rotation the priorities of the light
validators, which wait the longest, and of the heavy ones are more than two total powers apart. Then
a call rescales, and one of the heavy validators loses a turn to the lightest one. -/
theorem proposers_disproportional : ∃ s ps last, newValidatorSet thirteen = .ok s ∧
    rotation (s.totalVotingPower.toNat - 1) s = .ok (ps, last) ∧
    ⟨[3], none, 78, 0⟩ ∈ thirteen ∧ ps.count (some [3]) = 77 ∧
    ⟨[13], none, 1, 0⟩ ∈ thirteen ∧ ps.count (some [13]) = 2 ∧
    last.validators.map proposerPriority =
      [-51, -51, 100, 18, 18, 18, 18, 18, 18, 18, 18, 45, -186] := by
  have hrun : (match newValidatorSet thirteen with
      | .error _ => false
      | .ok s => match rotation (s.totalVotingPower.toNat - 1) s with
        | .error _ => false
        | .ok (ps, last) => ps.count (some [3]) = 77 ∧ ps.count (some [13]) = 2 ∧
          last.validators.map proposerPriority =
            [-51, -51, 100, 18, 18, 18, 18, 18, 18, 18, 18, 45, -186]) = true := by
    decide +kernel
  split at hrun
  · cases hrun
  rename_i s hs
  split at hrun
  · cases hrun
  rename_i ps last hrot
  obtain ⟨h₁, h₂, h₃⟩ := of_decide_eq_true hrun
  exact ⟨s, ps, last, hs, hrot, by decide, h₁, by decide, h₂, h₃⟩

end CometBFT.Types
