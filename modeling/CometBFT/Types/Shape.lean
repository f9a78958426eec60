import CometBFT.Types.Overflow

/-!
# What increments keep

Whatever the priorities are, an increment changes nothing but them and the proposer: the addresses,
the keys, the powers and the order stay. On a sound set every number of increments succeeds; where a
priority would leave the 64 bits it is clipped.

## Main results

* `rotated_of_incrementProposerPriority` — a call that succeeds changes the priorities only
* `ValidatorSet.Sound.increment_ok` — it succeeds
* `checkAllKeysHaveSameType_perm` — the order of the keys does not matter
-/

namespace CometBFT.Types

open Validators List Validator

/-! ### One election -/

variable {vals vals' : List Validator}

theorem shape_of_rescalePriorities {diffMax : ℤ} (h : rescalePriorities diffMax vals = .ok vals') :
    vals'.map shape = vals.map shape := by
  unfold rescalePriorities at h
  dsimp only at h
  split_ifs at h
  · cases h
    rfl
  · cases h
    rw [map_map]
    rfl
  · cases h
    rfl

theorem shape_of_shiftByAvg (h : shiftByAvgProposerPriority vals = .ok vals') :
    vals'.map shape = vals.map shape := by
  unfold shiftByAvgProposerPriority at h
  split at h
  · cases h
  · obtain ⟨avg, -, h⟩ := ok_of_bind h
    cases h
    rw [map_map]
    rfl

/-- An election succeeds, and someone of the set is elected. -/
theorem incrementProposerPriority_total (total : ℤ) (hne : vals ≠ [])
    (hnodup : (addresses vals).Nodup) :
    ∃ vals' m, incrementProposerPriority total vals = .ok (vals', m) ∧
      vals'.map shape = vals.map shape ∧ m ∈ vals' := by
  have hraised : (vals.map fun val : Validator => { val with
      proposerPriority := safeAddClip val.proposerPriority val.votingPower }).map shape =
      vals.map shape := by
    rw [map_map]
    rfl
  have hnodup' := addresses_of_shape hraised ▸ hnodup
  obtain ⟨m, hm, hmost, -⟩ := getValWithMostPriority_spec (ne_nil_of_shape hraised hne) hnodup'
  refine ⟨_, m.withPriority (safeSubClip m.proposerPriority total), ?_,
    (shape_replace hnodup' hm _).trans hraised, mem_replace_self (mem_map.mpr ⟨m, hm, rfl⟩)⟩
  unfold incrementProposerPriority
  dsimp only
  rw [hmost]
  rfl

/-- So does every number of them. -/
theorem incrementTimes_total (total : ℤ) {n : ℕ} (hn : n ≠ 0) (hne : vals ≠ [])
    (hnodup : (addresses vals).Nodup) (p : Option Validator) :
    ∃ vals' m, incrementTimes total n vals p = .ok (vals', some m) ∧
      vals'.map shape = vals.map shape ∧ m ∈ vals' := by
  induction n generalizing vals p with
  | zero => exact absurd rfl hn
  | succ n ih =>
    obtain ⟨mid, m, hone, hshape, hm⟩ := incrementProposerPriority_total total hne hnodup
    have hsucc : incrementTimes total (n + 1) vals p = incrementTimes total n mid (some m) := by
      rw [incrementTimes, hone]
      rfl
    rw [hsucc]
    by_cases hn' : n = 0
    · subst hn'
      exact ⟨mid, m, rfl, hshape, hm⟩
    · obtain ⟨vals', m', htimes, hshape', hm'⟩ := ih hn' (ne_nil_of_shape hshape hne)
        (addresses_of_shape hshape ▸ hnodup) (some m)
      exact ⟨vals', m', htimes, hshape'.trans hshape, hm'⟩

/-! ### One call -/

/-- The sets agree in all but the priorities and the proposer, and the second one has a proposer. -/
structure Rotated (vals vals' : ValidatorSet) : Prop where
  shape : vals'.validators.map shape = vals.validators.map shape
  total : vals'.totalVotingPower = vals.totalVotingPower
  sameType : vals'.allKeysHaveSameType = vals.allKeysHaveSameType
  proposer : ∃ m ∈ vals'.validators, vals'.proposer = some m

theorem Rotated.trans {vals mid vals' : ValidatorSet} (h : Rotated vals mid)
    (h' : Rotated mid vals') : Rotated vals vals' :=
  ⟨h'.shape.trans h.shape, h'.total.trans h.total, h'.sameType.trans h.sameType, h'.proposer⟩

/-- **A call that succeeds** changes nothing but the priorities and the proposer. -/
theorem rotated_of_incrementProposerPriority {vals vals' : ValidatorSet} {times : ℤ}
    (hnodup : (addresses vals.validators).Nodup)
    (h : vals.incrementProposerPriority times = .ok vals') : Rotated vals vals' := by
  obtain ⟨hne, htimes⟩ := of_incrementProposerPriority_ok h
  obtain ⟨total, rescaled, shifted, -, hrescale, hshift, hinc, hrest⟩ :=
    incrementProposerPriority_eq_ok h
  have hshape := (shape_of_shiftByAvg hshift).trans (shape_of_rescalePriorities hrescale)
  obtain ⟨cur, m, hinc', hshape', hm⟩ := incrementTimes_total total (by omega : times.toNat ≠ 0)
    (ne_nil_of_shape hshape hne) (addresses_of_shape hshape ▸ hnodup) none
  obtain ⟨rfl, hp⟩ := Prod.mk.inj (Except.ok.inj (hinc'.symm.trans hinc))
  exact ⟨hshape'.trans hshape, by rw [hrest], by rw [hrest], m, hm, hp.symm⟩

/-- **A call on a sound set** succeeds. -/
theorem ValidatorSet.Sound.increment_ok {vals : ValidatorSet} (h : vals.Sound)
    (hne : vals.validators ≠ []) {times : ℤ} (htimes : 0 < times) :
    ∃ vals', vals.incrementProposerPriority times = .ok vals' ∧ Rotated vals vals' := by
  have hmaxval := maxTotalVotingPower_eq
  have hmax := h.total_le
  have hT := powerSum_pos hne h.pos
  obtain ⟨-, rescaled, shifted, hrescale, hshift, hshape, -, -, -⟩ :=
    centre_spec hne h.pos hmax h.within (by omega) (by omega) (by omega)
  obtain ⟨cur, m, hinc, -, -⟩ := incrementTimes_total (powerSum vals.validators)
    (by omega : times.toNat ≠ 0) (ne_nil_of_shape hshape hne)
    (addresses_of_shape hshape ▸ h.nodup) none
  have hok := incrementProposerPriority_eq (getTotalVotingPower_eq h.total h.pos) hne htimes hrescale
    hshift hinc
  exact ⟨_, hok, rotated_of_incrementProposerPriority h.nodup hok⟩

/-! ### The types of the keys -/

def Validator.keyType (v : Validator) : String := (v.pubKey.map PubKey.type).getD ""

theorem checkAllKeysHaveSameType_of_keys {t : String} (ht : t ≠ "")
    (hkeys : ∀ v ∈ vals, v.keyType ≠ "") :
    checkAllKeysHaveSameType t vals = .ok (decide (∀ v ∈ vals, v.keyType = t)) := by
  induction vals with
  | nil => rfl
  | cons v vals ih =>
    have hv := hkeys v mem_cons_self
    unfold checkAllKeysHaveSameType
    unfold keyType at hv
    cases hkey : v.pubKey with
    | none => exact absurd (by rw [hkey]; rfl) hv
    | some key =>
      have htype : v.keyType = key.type := by rw [keyType, hkey]; rfl
      dsimp only
      rw [if_neg ht, ih fun u hu => hkeys u (mem_cons_of_mem v hu)]
      by_cases heq : key.type = t
      · rw [if_neg (not_not.mpr heq)]
        simp [htype, heq]
      · rw [if_pos heq]
        simp [htype, heq]

/-- All keys have one type, if each two of them do. -/
theorem checkAllKeysHaveSameType_eq (hkeys : ∀ v ∈ vals, v.keyType ≠ "") :
    checkAllKeysHaveSameType "" vals =
      .ok (decide (∀ v ∈ vals, ∀ u ∈ vals, v.keyType = u.keyType)) := by
  cases vals with
  | nil => rfl
  | cons v vals =>
    have hv := hkeys v mem_cons_self
    have hfirst : checkAllKeysHaveSameType "" (v :: vals) =
        checkAllKeysHaveSameType v.keyType vals := by
      rw [checkAllKeysHaveSameType]
      unfold keyType at hv ⊢
      cases hkey : v.pubKey with
      | none => exact absurd (by rw [hkey]; rfl) hv
      | some key => exact if_neg (not_not.mpr rfl)
    rw [hfirst, checkAllKeysHaveSameType_of_keys hv fun u hu => hkeys u (mem_cons_of_mem v hu)]
    refine congrArg Except.ok (decide_eq_decide.mpr ⟨fun h => ?_, fun h u hu => ?_⟩)
    · have hall : ∀ u ∈ v :: vals, u.keyType = v.keyType := by
        intro u hu
        rcases mem_cons.mp hu with rfl | hu
        · rfl
        · exact h u hu
      exact fun u hu w hw => (hall u hu).trans (hall w hw).symm
    · exact h u (mem_cons_of_mem v hu) v mem_cons_self

/-- The order does not matter. -/
theorem checkAllKeysHaveSameType_perm (hperm : vals.Perm vals') (hkeys : ∀ v ∈ vals, v.keyType ≠ "") :
    checkAllKeysHaveSameType "" vals' = checkAllKeysHaveSameType "" vals := by
  rw [checkAllKeysHaveSameType_eq hkeys,
    checkAllKeysHaveSameType_eq fun v hv => hkeys v (hperm.mem_iff.mpr hv)]
  simp only [hperm.mem_iff]

/-- Only the keys matter. -/
theorem checkAllKeysHaveSameType_of_shape (h : vals'.map shape = vals.map shape)
    (t : String) :
    checkAllKeysHaveSameType t vals' = checkAllKeysHaveSameType t vals := by
  induction vals generalizing vals' t with
  | nil => rw [map_eq_nil_iff.mp h]
  | cons v vals ih =>
    obtain ⟨v', vals', rfl⟩ :=
      exists_cons_of_ne_nil (ne_nil_of_shape h (cons_ne_nil v vals))
    obtain ⟨hv, h⟩ := cons.inj h
    have hkey : v'.pubKey = v.pubKey := congrArg (fun x => x.2.1) hv
    unfold checkAllKeysHaveSameType
    simp only [hkey, ih h]

end CometBFT.Types
