import CometBFT.Lib.Except
import CometBFT.Types.Priorities

/-!
# Change sets

What `updateWithChangeSet` makes of a validator set, up to the rescaling: the addresses stay
distinct and the powers positive, a validator that stays keeps its priority, and one that joins gets
the priority that the total power before the removals gives it.

## Main results

* `applyChangeSet_spec` — the list of validators after a change set
-/

namespace CometBFT.Types

open List

namespace Validators

variable {vals vals' updates deletes existing : List Validator}

/-- Sorted by address, each address once. -/
def Ascending (vals : List Validator) : Prop := vals.Pairwise fun a b => a.address < b.address

theorem ascending_iff : Ascending vals ↔ (addresses vals).Pairwise (· < ·) :=
  pairwise_map.symm

theorem Ascending.nodup (h : Ascending vals) : (addresses vals).Nodup :=
  (pairwise_map.mpr h).imp ne_of_lt

/-! ### The changes -/

theorem sortByAddress_perm (vals : List Validator) : (sortByAddress vals).Perm vals :=
  perm_insertionSort _ vals

theorem sortByAddress_sorted (vals : List Validator) :
    (sortByAddress vals).Pairwise fun a b => a.address ≤ b.address :=
  haveI : Std.Total fun a b : Validator => a.address ≤ b.address := ⟨fun _ _ => le_total _ _⟩
  haveI : IsTrans Validator fun a b => a.address ≤ b.address := ⟨fun _ _ _ => le_trans⟩
  pairwise_insertionSort _ vals

theorem sortByAddress_ascending (hnodup : (addresses vals).Nodup) : Ascending (sortByAddress vals) := by
  have hne : (sortByAddress vals).Pairwise fun a b => a.address ≠ b.address := by
    refine pairwise_map.mp (?_ : (addresses (sortByAddress vals)).Nodup)
    exact ((sortByAddress_perm vals).map Validator.address).nodup_iff.mpr hnodup
  exact (sortByAddress_sorted vals).imp₂ (fun _ _ => lt_of_le_of_ne) hne

variable {changes : List Validator}

/-- The scan returns an error, or it splits the changes by their power; then the addresses ascend. -/
theorem splitChanges_cases {prev : Bytes} {rest : List Validator}
    (hsorted : rest.Pairwise fun a b => a.address ≤ b.address)
    (hprev : ∀ v ∈ rest, prev ≤ v.address) :
    (∃ e, splitChanges changes prev rest = .error (.err e)) ∨
      splitChanges changes prev rest =
        .ok (rest.filter (fun v => v.votingPower ≠ 0), rest.filter fun v => v.votingPower = 0) ∧
      Ascending rest ∧ (∀ v ∈ rest, prev < v.address) ∧
      ∀ v ∈ rest, 0 ≤ v.votingPower ∧ v.votingPower ≤ maxTotalVotingPower := by
  induction rest generalizing prev with
  | nil => exact .inr ⟨rfl, .nil, forall_mem_nil _, forall_mem_nil _⟩
  | cons u rest ih =>
    obtain ⟨hu, hsorted⟩ := pairwise_cons.mp hsorted
    unfold splitChanges
    split
    · exact .inl ⟨_, rfl⟩
    split
    · exact .inl ⟨_, rfl⟩
    split
    · exact .inl ⟨_, rfl⟩
    rename_i hdup hneg hhigh
    rcases ih hsorted hu with ⟨e, he⟩ | ⟨hrest, hasc, hlt, hpow⟩
    · exact .inl ⟨e, bind_of_error he _⟩
    -- the address before is below that of the first, and so below all
    have hprevu := lt_of_le_of_ne (hprev u mem_cons_self) (Ne.symm hdup)
    refine .inr ⟨?_, pairwise_cons.mpr ⟨hlt, hasc⟩,
      forall_mem_cons.mpr ⟨hprevu, fun v hv => hprevu.trans (hlt v hv)⟩,
      forall_mem_cons.mpr ⟨⟨not_lt.mp hneg, not_lt.mp hhigh⟩, hpow⟩⟩
    rw [bind_of_ok hrest]
    by_cases hzero : u.votingPower = 0
    · simp [hzero]
      rfl
    · simp [hzero]
      rfl

theorem nil_le_address (a : Bytes) : [] ≤ a := by
  cases a with
  | nil => exact le_rfl
  | cons b a => exact (nil_lt_cons b a).le

/-- The changes, sorted and split. -/
structure Split (changes updates deletes : List Validator) : Prop where
  updates_ascending : Ascending updates
  deletes_ascending : Ascending deletes
  nodup : (addresses (updates ++ deletes)).Nodup
  mem_updates : ∀ c, c ∈ updates ↔ c ∈ changes ∧ c.votingPower ≠ 0
  mem_deletes : ∀ c, c ∈ deletes ↔ c ∈ changes ∧ c.votingPower = 0
  powers : ∀ v ∈ updates, 0 < v.votingPower ∧ v.votingPower ≤ maxTotalVotingPower

theorem processChanges_cases (changes : List Validator) :
    (∃ e, processChanges changes = .error (.err e)) ∨
      ∃ updates deletes, processChanges changes = .ok (updates, deletes) ∧
        Split changes updates deletes := by
  have hmem : ∀ c, c ∈ sortByAddress changes ↔ c ∈ changes := fun c =>
    (sortByAddress_perm changes).mem_iff
  rcases splitChanges_cases (sortByAddress_sorted changes)
    (fun v _ => nil_le_address v.address) with herr | ⟨hok, hasc, -, hpow⟩
  · exact .inl herr
  refine .inr ⟨_, _, hok, hasc.sublist filter_sublist, hasc.sublist filter_sublist, ?_,
    fun c => ?_, fun c => ?_, fun v hv => ?_⟩
  · have hperm : ((sortByAddress changes).filter (fun v => v.votingPower ≠ 0) ++
        (sortByAddress changes).filter fun v => v.votingPower = 0).Perm (sortByAddress changes) := by
      simpa using filter_append_perm (fun v : Validator => decide (v.votingPower ≠ 0)) _
    exact (hperm.map Validator.address).nodup_iff.mpr hasc.nodup
  · rw [mem_filter, hmem, decide_eq_true_eq]
  · rw [mem_filter, hmem, decide_eq_true_eq]
  · obtain ⟨hv, hne⟩ := mem_filter.mp hv
    have := hpow v hv
    have := of_decide_eq_true hne
    omega

theorem split_of_processChanges (h : processChanges changes = .ok (updates, deletes)) :
    Split changes updates deletes := by
  rcases processChanges_cases changes with ⟨e, he⟩ | ⟨updates, deletes, hok, hs⟩
  · cases h.symm.trans he
  · cases h.symm.trans hok
    exact hs

/-! ### The merge -/

variable {v : Validator}

variable {rest : List Validator → List Validator} {r : Except Failure ℤ}

theorem mem_mergeOne {e : Validator} (hrest : ∀ us, v ∈ rest us → v ∈ us ∨ v ∈ existing)
    (h : v ∈ mergeOne e rest updates) :
    v ∈ updates ∨ v ∈ e :: existing := by
  induction updates with
  | nil =>
    rcases mem_cons.mp h with rfl | h
    · exact .inr mem_cons_self
    · exact (hrest _ h).imp id (mem_cons_of_mem e)
  | cons u us ih =>
    unfold mergeOne at h
    split at h
    · rcases mem_cons.mp h with rfl | h
      · exact .inr mem_cons_self
      · exact (hrest _ h).imp id (mem_cons_of_mem e)
    · split at h
      · rcases mem_cons.mp h with rfl | h
        · exact .inl mem_cons_self
        · exact (hrest _ h).imp (mem_cons_of_mem u) (mem_cons_of_mem e)
      · rcases mem_cons.mp h with rfl | h
        · exact .inl mem_cons_self
        · exact (ih h).imp (mem_cons_of_mem u) id

theorem mem_mergeUpdates (h : v ∈ mergeUpdates existing updates) :
    v ∈ updates ∨ v ∈ existing := by
  induction existing generalizing updates with
  | nil => exact .inl h
  | cons e existing ih => exact mem_mergeOne (fun _ h => ih h) h

theorem mergeOne_ascending {e : Validator} (hmem : ∀ us v, v ∈ rest us → v ∈ us ∨ v ∈ existing)
    (hrest : ∀ us, Ascending us → Ascending (rest us)) (he : Ascending (e :: existing))
    (hu : Ascending updates) : Ascending (mergeOne e rest updates) := by
  have hlt := (pairwise_cons.mp he).1
  induction updates with
  | nil =>
    refine pairwise_cons.mpr ⟨fun v hv => ?_, hrest _ .nil⟩
    exact hlt v ((hmem _ v hv).resolve_left not_mem_nil)
  | cons u us ih =>
    obtain ⟨hu', hus⟩ := pairwise_cons.mp hu
    unfold mergeOne
    split
    · rename_i hlt'
      refine pairwise_cons.mpr ⟨fun v hv => ?_, hrest _ hu⟩
      rcases hmem _ v hv with hv | hv
      · rcases mem_cons.mp hv with rfl | hv
        · exact hlt'
        · exact hlt'.trans (hu' v hv)
      · exact hlt v hv
    · split
      · rename_i heq
        refine pairwise_cons.mpr ⟨fun v hv => ?_, hrest _ hus⟩
        rcases hmem _ v hv with hv | hv
        · exact hu' v hv
        · exact heq ▸ hlt v hv
      · rename_i hnlt hne
        have hgt : u.address < e.address := lt_of_le_of_ne (not_lt.mp hnlt) (Ne.symm hne)
        refine pairwise_cons.mpr ⟨fun v hv => ?_, ih hus⟩
        rcases mem_mergeOne (fun us => hmem us v) hv with hv | hv
        · exact hu' v hv
        · rcases mem_cons.mp hv with rfl | hv
          · exact hgt
          · exact hgt.trans (hlt v hv)

theorem mergeUpdates_ascending (he : Ascending existing) (hu : Ascending updates) :
    Ascending (mergeUpdates existing updates) := by
  induction existing generalizing updates with
  | nil => exact hu
  | cons e existing ih =>
    exact mergeOne_ascending (fun _ _ => mem_mergeUpdates)
      (fun us hus => ih (pairwise_cons.mp he).2 hus) he hu

theorem applyRemovals_sublist (h : applyRemovals existing deletes = .ok vals) :
    vals.Sublist existing := by
  induction existing generalizing deletes vals with
  | nil =>
    cases deletes with
    | nil => cases h; exact .slnil
    | cons d ds => cases h
  | cons e existing ih =>
    cases deletes with
    | nil => cases h; exact .refl _
    | cons d ds =>
      unfold applyRemovals at h
      split at h
      · exact (ih h).cons e
      · obtain ⟨merged, hmerged, h⟩ := ok_of_bind h
        cases h
        exact (ih hmerged).cons_cons e

/-! ### The powers -/

theorem powerOf_nonneg (hpos : ∀ v ∈ vals, 0 < v.votingPower) (a : Bytes) : 0 ≤ powerOf vals a := by
  unfold powerOf
  cases hget : getByAddress vals a with
  | none => exact le_rfl
  | some v => exact (hpos v (mem_of_find?_eq_some hget)).le

theorem powerOf_le_powerSum (hpos : ∀ v ∈ vals, 0 < v.votingPower) (a : Bytes) :
    powerOf vals a ≤ powerSum vals := by
  unfold powerOf
  cases hget : getByAddress vals a with
  | none => exact sum_nonneg (by simpa using fun v hv => (hpos v hv).le)
  | some v => exact votingPower_le_powerSum hpos (mem_of_find?_eq_some hget)

theorem powerOf_eq_zero {a : Bytes} (ha : a ∉ (addresses vals).toFinset) : powerOf vals a = 0 := by
  unfold powerOf
  cases hget : getByAddress vals a with
  | none => rfl
  | some v =>
    have hva : v.address = a := by simpa using find?_some hget
    exact absurd (hva ▸ mem_addresses (mem_of_find?_eq_some hget)) ha

/-- Different addresses have together at most the power of the set. -/
theorem sum_powerOf_le (hnodup : (addresses vals).Nodup) (hpos : ∀ v ∈ vals, 0 < v.votingPower)
    (hnodup' : (addresses vals').Nodup) :
    (vals'.map fun v => powerOf vals v.address).sum ≤ powerSum vals := by
  rw [← sum_addresses hnodup', ← sum_powerOf hnodup]
  calc ∑ a ∈ (addresses vals').toFinset, powerOf vals a
      ≤ ∑ a ∈ (addresses vals').toFinset ∪ (addresses vals).toFinset, powerOf vals a :=
        Finset.sum_le_sum_of_subset_of_nonneg Finset.subset_union_left
          fun a _ _ => powerOf_nonneg hpos a
    _ = ∑ a ∈ (addresses vals).toFinset, powerOf vals a :=
        (Finset.sum_subset Finset.subset_union_right fun a _ ha => powerOf_eq_zero ha).symm

/-- The powers that some validators have in `vals`. -/
def powersIn (vals changes : List Validator) : ℤ :=
  (changes.map fun v => powerOf vals v.address).sum

theorem powersIn_nonneg (hpos : ∀ v ∈ vals, 0 < v.votingPower) (changes : List Validator) :
    0 ≤ powersIn vals changes :=
  sum_nonneg (by simpa using fun v (_ : v ∈ changes) => powerOf_nonneg hpos v.address)

variable {x : ℤ} {allowDeletes : Bool} {merged : List Validator}

/-- The loop of `verifyRemovals` adds up the powers of those it removes, if it finds them all. -/
theorem foldlM_removed (hpos : ∀ v ∈ vals, 0 < v.votingPower) (hx : 0 ≤ x)
    (hfits : x + powersIn vals deletes ≤ maxInt64) (h : deletes.foldlM (fun sum valUpdate =>
      match getByAddress vals valUpdate.address with
      | none => .error (.err (.removeUnknown valUpdate.address))
      | some val => .ok (wrap64 (sum + val.votingPower))) x = r) :
    (∃ e, r = .error (.err e)) ∨
      addresses deletes ⊆ addresses vals ∧ r = .ok (x + powersIn vals deletes) := by
  subst h
  induction deletes generalizing x with
  | nil => exact .inr ⟨nil_subset _, congrArg Except.ok (add_zero x).symm⟩
  | cons d ds ih =>
    have hrest := powersIn_nonneg hpos ds
    have hcons : powersIn vals (d :: ds) = powerOf vals d.address + powersIn vals ds := sum_cons
    rw [hcons] at hfits ⊢
    rw [foldlM_cons]
    cases hget : getByAddress vals d.address with
    | none => exact .inl ⟨_, rfl⟩
    | some v =>
      have hmem := mem_of_find?_eq_some hget
      have hva : v.address = d.address := by simpa using find?_some hget
      have hv : powerOf vals d.address = v.votingPower := by
        rw [powerOf, hget, Option.map_some, Option.getD_some]
      have hv0 := hpos v hmem
      have hmin := minInt64_eq
      rw [hv] at hfits ⊢
      dsimp only
      rw [wrap64_of_fits ⟨by omega, by omega⟩, ← add_assoc]
      refine (ih (by omega) (by omega)).imp_right fun h => ⟨cons_subset.mpr ⟨?_, h.1⟩, h.2⟩
      exact hva ▸ mem_map_of_mem hmem

/-- **The removals** are refused, or all of them are found and their powers added up: there are not
more of them than validators, as no address comes twice. -/
theorem verifyRemovals_cases (hpos : ∀ v ∈ vals, 0 < v.votingPower)
    (hdeletes : (addresses deletes).Nodup) (hfits : powersIn vals deletes ≤ maxInt64) :
    (∃ e, verifyRemovals deletes vals = .error (.err e)) ∨
      addresses deletes ⊆ addresses vals ∧
        verifyRemovals deletes vals = .ok (powersIn vals deletes) := by
  rcases foldlM_removed hpos le_rfl (by rwa [zero_add]) rfl with ⟨e, he⟩ | ⟨hsub, hok⟩
  · exact .inl ⟨e, bind_of_error he _⟩
  · have hle : deletes.length ≤ vals.length := by
      simpa [addresses] using (hdeletes.subperm hsub).length_le
    refine .inr ⟨hsub, (bind_of_ok hok _).trans ?_⟩
    rw [if_neg (not_lt.mpr hle), zero_add]
    rfl

/-- The loop of `verifyUpdates`: it adds up the deltas, and stays between zero and the highest total
power. -/
theorem foldlM_deltas {ds : List ℤ} (hds : ∀ d ∈ ds, -maxTotalVotingPower ≤ d ∧
      d ≤ maxTotalVotingPower) (hx : x ≤ maxTotalVotingPower)
    (hlow : 0 ≤ x + (ds.map (min · 0)).sum) (h : ds.foldlM (fun tvp d =>
      let tvp := wrap64 (tvp + d)
      if tvp > maxTotalVotingPower then .error (.err .totalVotingPowerOverflow) else .ok tvp) x = r)
    :(∃ e, r = .error (.err e)) ∨
      r = .ok (x + ds.sum) ∧ 0 ≤ x + ds.sum ∧ x + ds.sum ≤ maxTotalVotingPower := by
  subst h
  induction ds generalizing x with
  | nil =>
    simp only [map_nil, sum_nil, add_zero] at hlow ⊢
    exact .inr ⟨rfl, hlow, hx⟩
  | cons d ds ih =>
    have hrest : (ds.map (min · 0)).sum ≤ 0 := by
      simpa using sum_le_card_nsmul (ds.map (min · 0)) 0 (by simp)
    obtain ⟨hd, hds⟩ := forall_mem_cons.mp hds
    have hmax : maxTotalVotingPower = 1152921504606846975 := rfl
    rw [map_cons, sum_cons] at hlow
    have hwrap : wrap64 (x + d) = x + d :=
      wrap64_of_fits (fits64_of_bounds (by omega))
    rw [foldlM_cons, sum_cons, ← add_assoc]
    dsimp only
    rw [hwrap]
    split
    · exact .inl ⟨_, rfl⟩
    · exact ih hds (by omega) (by omega)

theorem maxTotalVotingPower_eq : maxTotalVotingPower = 1152921504606846975 := rfl

section

variable (hpow : ∀ v ∈ vals, 0 ≤ v.votingPower)

include hpow

theorem powerSum_nonneg : 0 ≤ powerSum vals :=
  sum_nonneg (by simpa using hpow)

/-- The loop of `updateTotalVotingPower`. Where the sum is clipped it is above the limit. -/
theorem foldlM_total (hx : 0 ≤ x ∧ x ≤ maxTotalVotingPower) : (vals.foldlM (fun sum val =>
      let sum := safeAddClip sum val.votingPower
      if sum > maxTotalVotingPower then
        .error (.panic totalExceeded)
      else .ok sum) x : Except Failure ℤ) =
      if x + powerSum vals ≤ maxTotalVotingPower then .ok (x + powerSum vals)
      else .error
        (.panic totalExceeded) := by
  induction vals generalizing x with
  | nil =>
    rw [powerSum, map_nil, sum_nil, add_zero, if_pos hx.2]
    rfl
  | cons v vals ih =>
    obtain ⟨hv, hpow⟩ := forall_mem_cons.mp hpow
    have hrest := powerSum_nonneg hpow
    have hcons : powerSum (v :: vals) = v.votingPower + powerSum vals := sum_cons
    have hmaxval := maxTotalVotingPower_eq
    rw [foldlM_cons, hcons, ← add_assoc]
    dsimp only
    by_cases hle : x + v.votingPower ≤ maxTotalVotingPower
    · have hclip : safeAddClip x v.votingPower = x + v.votingPower :=
        safeAddClip_of_fits (fits64_of_bounds (by omega))
      rw [hclip, if_neg (not_lt.mpr hle)]
      exact ih hpow ⟨by omega, hle⟩
    · have hclip : maxTotalVotingPower < safeAddClip x v.votingPower := by
        by_cases hfits : Fits64 (x + v.votingPower)
        · rw [safeAddClip_of_fits hfits]
          exact not_le.mp hle
        · unfold Fits64 minInt64 maxInt64 at hfits
          unfold safeAddClip safeAdd maxInt64
          rw [if_pos ⟨by omega, by omega⟩, if_neg (by omega), hmaxval]
          decide
      rw [if_pos hclip, if_neg (by omega)]
      rfl

theorem updateTotalVotingPower_eq : updateTotalVotingPower vals =
      if powerSum vals ≤ maxTotalVotingPower then .ok (powerSum vals)
      else .error
        (.panic totalExceeded) := by
  have := foldlM_total hpow ⟨le_rfl, by decide⟩
  rwa [zero_add] at this

theorem updateTotalVotingPower_spec {total : ℤ} (h : updateTotalVotingPower vals = .ok total) :
    total = powerSum vals ∧ 0 ≤ total ∧ total ≤ maxTotalVotingPower := by
  rw [updateTotalVotingPower_eq hpow] at h
  split at h
  · cases h
    exact ⟨rfl, powerSum_nonneg hpow, ‹_›⟩
  · cases h

/-- The sum is computed if it is not above the limit. -/
theorem updateTotalVotingPower_of_le (hle : powerSum vals ≤ maxTotalVotingPower) :
    updateTotalVotingPower vals = .ok (powerSum vals) := by
  rw [updateTotalVotingPower_eq hpow, if_pos hle]

end

theorem getTotalVotingPower_eq {vals : ValidatorSet}
    (htotal : vals.totalVotingPower = powerSum vals.validators)
    (hpos : ∀ v ∈ vals.validators, 0 < v.votingPower) :
    vals.getTotalVotingPower = .ok (powerSum vals.validators) := by
  unfold ValidatorSet.getTotalVotingPower
  split
  · rename_i h0
    have hnil : vals.validators = [] := by
      by_contra hne
      obtain ⟨v, hv⟩ := exists_mem_of_ne_nil _ hne
      have h₁ := hpos v hv
      have h₂ := votingPower_le_powerSum hpos hv
      omega
    rw [hnil]
    rfl
  · rw [htotal]

theorem delta_eq (hpos : ∀ v ∈ vals, 0 < v.votingPower)
    (hmax : powerSum vals ≤ maxTotalVotingPower) {u : Validator}
    (hu : 0 < u.votingPower ∧ u.votingPower ≤ maxTotalVotingPower) :
    delta vals u = u.votingPower - powerOf vals u.address := by
  unfold delta powerOf
  cases hget : getByAddress vals u.address with
  | none => exact (sub_zero _).symm
  | some v =>
    have hv := mem_of_find?_eq_some hget
    have h₁ := hpos v hv
    have h₂ := votingPower_le_powerSum hpos hv
    have h₃ : maxTotalVotingPower = 1152921504606846975 := rfl
    exact wrap64_of_fits (fits64_of_bounds (by omega))

/-- The negative deltas take away at most the powers that change. -/
theorem neg_powersIn_le (updates : List Validator) (hpos : ∀ v ∈ vals, 0 < v.votingPower)
    (hdelta : ∀ u ∈ updates, delta vals u = u.votingPower - powerOf vals u.address)
    (hups : ∀ v ∈ updates, 0 < v.votingPower) :
    -powersIn vals updates ≤
      (((updates.map (delta vals)).insertionSort (· ≤ ·)).map (min · 0)).sum := by
  rw [((perm_insertionSort _ _).map (min · 0)).sum_eq, map_map]
  induction updates with
  | nil => exact le_rfl
  | cons u us ih =>
    have hrest := ih (fun v hv => hdelta v (mem_cons_of_mem _ hv))
      (fun v hv => hups v (mem_cons_of_mem _ hv))
    have h₁ := hdelta u mem_cons_self
    have h₂ := hups u mem_cons_self
    have h₃ := powerOf_nonneg hpos u.address
    simp only [powersIn, map_cons, sum_cons, Function.comp_apply] at hrest ⊢
    omega

/-- The deltas add up to what the updates bring less what they replace. -/
theorem sum_deltas (hdelta : ∀ u ∈ updates, delta vals u = u.votingPower - powerOf vals u.address) :
    ((updates.map (delta vals)).insertionSort (· ≤ ·)).sum =
      powerSum updates - powersIn vals updates := by
  rw [(perm_insertionSort _ _).sum_eq, map_congr_left hdelta]
  induction updates with
  | nil => rfl
  | cons u us ih =>
    have hrest := ih fun u hu => hdelta u (mem_cons_of_mem _ hu)
    simp only [powerSum, powersIn, map_cons, sum_cons] at hrest ⊢
    rw [hrest]
    ring

variable {tvp : ℤ}

/-- What the changes replace and remove has together at most the power of the set. -/
theorem Split.powersIn_le (hs : Split changes updates deletes) (hnodup : (addresses vals).Nodup)
    (hpos : ∀ v ∈ vals, 0 < v.votingPower) (hmax : powerSum vals ≤ maxTotalVotingPower) :
    powersIn vals updates + powersIn vals deletes ≤ powerSum vals ∧
      powersIn vals deletes ≤ maxInt64 := by
  have hle := sum_powerOf_le hnodup hpos hs.nodup
  rw [map_append, sum_append] at hle
  have h₁ := powersIn_nonneg hpos updates
  have hmaxval := maxTotalVotingPower_eq
  refine ⟨hle, ?_⟩
  unfold powersIn maxInt64 at *
  omega

/-- **The updates** are refused, or the total power before the removals is returned. -/
theorem verifyUpdates_cases {vals : ValidatorSet} (hpos : ∀ v ∈ vals.validators, 0 < v.votingPower)
    (htotal : vals.totalVotingPower = powerSum vals.validators)
    (hmax : powerSum vals.validators ≤ maxTotalVotingPower)
    (hups : ∀ v ∈ updates, 0 < v.votingPower ∧ v.votingPower ≤ maxTotalVotingPower) {removed : ℤ}
    (hremoved : 0 ≤ removed)
    (hle : powersIn vals.validators updates + removed ≤ powerSum vals.validators) :
    (∃ e, verifyUpdates updates vals removed = .error (.err e)) ∨
      ∃ tvp, verifyUpdates updates vals removed = .ok tvp ∧
        (0 ≤ tvp ∧ tvp ≤ 2 * maxTotalVotingPower) ∧ tvp - removed ≤ maxTotalVotingPower ∧
        tvp = powerSum vals.validators + (powerSum updates - powersIn vals.validators updates) := by
  have hmaxval := maxTotalVotingPower_eq
  have hups0 := powersIn_nonneg hpos updates
  have hdelta : ∀ u ∈ updates, delta vals.validators u =
      u.votingPower - powerOf vals.validators u.address := fun u hu => delta_eq hpos hmax (hups u hu)
  have hbounds : ∀ d ∈ (updates.map (delta vals.validators)).insertionSort (· ≤ ·),
      -maxTotalVotingPower ≤ d ∧ d ≤ maxTotalVotingPower := by
    intro d hd
    obtain ⟨u, hu, rfl⟩ := mem_map.mp ((mem_insertionSort _).mp hd)
    have h₁ := hups u hu
    have h₂ := powerOf_le_powerSum hpos u.address
    have h₃ := powerOf_nonneg hpos u.address
    rw [hdelta u hu]
    omega
  have hlow := neg_powersIn_le updates hpos hdelta fun u hu => (hups u hu).1
  have hstart : wrap64 (powerSum vals.validators - removed) = powerSum vals.validators - removed :=
    wrap64_of_fits (fits64_of_bounds (by omega))
  unfold verifyUpdates
  rw [bind_of_ok (getTotalVotingPower_eq htotal hpos), hstart]
  rcases foldlM_deltas (x := powerSum vals.validators - removed) hbounds (by omega) (by omega) rfl with
    ⟨e, he⟩ | ⟨hok, h₁, h₂⟩
  · exact .inl ⟨e, bind_of_error he _⟩
  · refine .inr ⟨_, bind_of_ok hok _, ?_⟩
    rw [sum_deltas hdelta] at h₁ h₂ ⊢
    rw [wrap64_of_fits (fits64_of_bounds (by omega))]
    omega

/-! ### The new list -/

theorem shape_computeNewPriorities (updates vals : List Validator) (tvp : ℤ) :
    (computeNewPriorities updates vals tvp).map Validator.shape = updates.map Validator.shape := by
  rw [computeNewPriorities, map_map]
  refine map_congr_left fun u _ => ?_
  rw [Function.comp_apply]
  split <;> rfl

theorem exists_of_mem_computeNewPriorities (h : v ∈ computeNewPriorities updates vals tvp) :
    ∃ u ∈ updates, u.shape = v.shape :=
  mem_map.mp (shape_computeNewPriorities updates vals tvp ▸ mem_map_of_mem h)

theorem computeNewPriorities_ascending (hups : Ascending updates) (vals : List Validator) (tvp : ℤ) :
    Ascending (computeNewPriorities updates vals tvp) := by
  rw [ascending_iff, addresses_of_shape (shape_computeNewPriorities updates vals tvp)]
  exact ascending_iff.mp hups

theorem priority_of_mem_computeNewPriorities (h : v ∈ computeNewPriorities updates vals tvp) :
    (∃ u ∈ vals, u.proposerPriority = v.proposerPriority) ∨
      v.proposerPriority = newPriority tvp := by
  obtain ⟨u, -, rfl⟩ := mem_map.mp h
  cases hget : getByAddress vals u.address with
  | none => exact .inr rfl
  | some w => exact .inl ⟨w, mem_of_find?_eq_some hget, rfl⟩

/-- The parts of `applyChangeSet`, if it succeeds. -/
theorem of_applyChangeSet {vals : ValidatorSet}
    (h : vals.applyChangeSet changes allowDeletes = .ok (tvp, merged)) :
    ∃ updates deletes removed, Split changes updates deletes ∧
      verifyRemovals deletes vals.validators = .ok removed ∧
      verifyUpdates updates vals removed = .ok tvp ∧
      merged.Sublist
        (applyUpdates vals.validators (computeNewPriorities updates vals.validators tvp)) := by
  obtain ⟨⟨updates, deletes⟩, hprocess, h⟩ := ok_of_bind h
  dsimp only at h
  split at h
  · cases h
  split at h
  · cases h
  obtain ⟨removed, hremovals, h⟩ := ok_of_bind h
  obtain ⟨tvp', hupdates, h⟩ := ok_of_bind h
  obtain ⟨merged', hmerged, h⟩ := ok_of_bind h
  cases h
  exact ⟨updates, deletes, removed, split_of_processChanges hprocess, hremovals, hupdates,
    applyRemovals_sublist hmerged⟩

/-- **A change set** leaves different addresses and positive powers. A validator that stays keeps its
priority, one that joins gets the priority for the total power before the removals, and that total
is not negative and at most twice the highest. -/
theorem applyChangeSet_spec {vals : ValidatorSet} (hnodup : (addresses vals.validators).Nodup)
    (hpos : ∀ v ∈ vals.validators, 0 < v.votingPower)
    (htotal : vals.totalVotingPower = powerSum vals.validators)
    (hmax : powerSum vals.validators ≤ maxTotalVotingPower)
    (h : vals.applyChangeSet changes allowDeletes = .ok (tvp, merged)) :
    (addresses merged).Nodup ∧
      (∀ v ∈ merged, 0 < v.votingPower ∧ v.votingPower ≤ maxTotalVotingPower) ∧
      (0 ≤ tvp ∧ tvp ≤ 2 * maxTotalVotingPower) ∧
      ∀ v ∈ merged, (∃ u ∈ vals.validators, u.proposerPriority = v.proposerPriority) ∨
        v.proposerPriority = newPriority tvp := by
  obtain ⟨updates, deletes, removed, hs, hremovals, hupdates, hsub⟩ := of_applyChangeSet h
  obtain ⟨hle, hfits⟩ := hs.powersIn_le hnodup hpos hmax
  have hbounds : 0 ≤ tvp ∧ tvp ≤ 2 * maxTotalVotingPower := by
    rcases verifyRemovals_cases hpos hs.deletes_ascending.nodup hfits with ⟨e, he⟩ | ⟨-, hok⟩
    · cases hremovals.symm.trans he
    cases hremovals.symm.trans hok
    rcases verifyUpdates_cases hpos htotal hmax hs.powers (powersIn_nonneg hpos deletes) hle with
      ⟨e, he⟩ | ⟨tvp', hok, hbounds, -⟩
    · cases hupdates.symm.trans he
    cases hupdates.symm.trans hok
    exact hbounds
  have hmem : ∀ v ∈ merged, v ∈ computeNewPriorities updates vals.validators tvp ∨
      v ∈ vals.validators := fun v hv =>
    (mem_mergeUpdates (hsub.subset hv)).imp_right fun h => (sortByAddress_perm _).mem_iff.mp h
  refine ⟨?_, fun v hv => ?_, hbounds, fun v hv => ?_⟩
  · have hall := mergeUpdates_ascending (sortByAddress_ascending hnodup)
      (computeNewPriorities_ascending hs.updates_ascending vals.validators tvp)
    exact Ascending.nodup (hall.sublist hsub)
  · rcases hmem v hv with hv | hv
    · exact power_of_shape (P := fun p => 0 < p ∧ p ≤ maxTotalVotingPower)
        (shape_computeNewPriorities updates vals.validators tvp) hs.powers v hv
    · exact ⟨hpos v hv, (votingPower_le_powerSum hpos hv).trans hmax⟩
  · rcases hmem v hv with hv | hv
    · exact priority_of_mem_computeNewPriorities hv
    · exact .inl ⟨v, hv, rfl⟩

/-- Who is in the set after a change was before, or is in the change with the same address, key and
power. -/
theorem mem_of_applyChangeSet {vals : ValidatorSet}
    (h : vals.applyChangeSet changes allowDeletes = .ok (tvp, merged)) (hv : v ∈ merged) :
    v ∈ vals.validators ∨ ∃ u ∈ changes, u.shape = v.shape := by
  obtain ⟨updates, deletes, removed, hs, -, -, hsub⟩ := of_applyChangeSet h
  rcases mem_mergeUpdates (hsub.subset hv) with hv | hv
  · obtain ⟨u, hu, hshape⟩ := exists_of_mem_computeNewPriorities hv
    exact .inr ⟨u, ((hs.mem_updates u).mp hu).1, hshape⟩
  · exact .inl ((sortByAddress_perm _).mem_iff.mp hv)

end Validators

end CometBFT.Types
