import CometBFT.Types.Shape

/-!
# Change sets as keyed updates

`UpdateWithChangeSet` changes a validator set in place, in two merges over lists that are sorted by
address, after passes over the same lists that verify the changes. Here the method is followed with
the set it leaves at every point, so that one can say what a failure leaves behind. In terms of
addresses it is an update of a table: the changes with power zero are taken out, the others put in,
and every other entry stays.

## Main results

* `result_updateInPlace` — the set that is left is that of `updateWithChangeSet`
* `mem_mergeUpdates_iff`, `applyRemovals_eq` — the two merges, as set operations
* `powerSum_mergedOf` — the total power that was verified is the one of the new list
* `updateWithChangeSet_keyed` — the update is atomic, keyed and independent of the order
-/

namespace CometBFT.Types

open Validators List Validator ValidatorSet

/-! ### Methods -/

/-- A method on a set that it changes in place: what it returns or how it fails, and the set it
leaves. -/
abbrev Method (α : Type) := ExceptT Failure (StateM ValidatorSet) α

namespace Method

variable {α β : Type}

/-- A call of a function that leaves the set alone. -/
def of (x : Except Failure α) : Method α := ExceptT.mk (pure x)

/-- What the method returns on a set, and the set it leaves. -/
def call (m : Method α) (vals : ValidatorSet) : Except Failure α × ValidatorSet := m.run.run vals

theorem call_of_ok {x : Except Failure α} {a : α} (h : x = .ok a) (f : α → Method β)
    (vals : ValidatorSet) : call (of x >>= f) vals = call (f a) vals := by
  subst h
  rfl

theorem call_of_error {x : Except Failure α} {e : Failure} (h : x = .error e) (f : α → Method β)
    (vals : ValidatorSet) : call (of x >>= f) vals = (.error e, vals) := by
  subst h
  rfl

theorem call_get (f : ValidatorSet → Method β) (vals : ValidatorSet) :
    call (get >>= f) vals = call (f vals) vals := rfl

theorem call_modify (g : ValidatorSet → ValidatorSet) (f : PUnit → Method β) (vals : ValidatorSet) :
    call (modify g >>= f) vals = call (f ⟨⟩) (g vals) := rfl

/-- The set that is left, unless the method fails. -/
def result (m : Method Unit) (vals : ValidatorSet) : Except Failure ValidatorSet :=
  (call m vals).1.map fun _ => (call m vals).2

theorem result_of (x : Except Failure α) (f : α → Method Unit) (vals : ValidatorSet) :
    (of x >>= f).result vals = x >>= fun a => (f a).result vals := by
  cases x with
  | error e => rfl
  | ok a => rfl

theorem result_get (f : ValidatorSet → Method Unit) (vals : ValidatorSet) :
    (get >>= f).result vals = (f vals).result vals := rfl

theorem result_modify (g : ValidatorSet → ValidatorSet) (f : PUnit → Method Unit)
    (vals : ValidatorSet) : (modify g >>= f).result vals = (f ⟨⟩).result (g vals) := rfl

end Method

open Method

namespace ValidatorSet

/-- `TotalVotingPower`, which computes the total power if it is not cached yet. -/
def cacheTotalVotingPower : Method Unit := do
  let vals ← get
  let total ← Method.of vals.getTotalVotingPower
  modify fun vals => { vals with totalVotingPower := total }

/-- The rest of `updateWithChangeSet` once the changes are verified: applying them, rescaling,
centring and sorting. -/
def applyInPlace (updates deletes : List Validator) : Method Unit := do
  modify fun vals => { vals with validators := applyUpdates vals.validators updates }
  let vals ← get
  let merged ← Method.of (applyRemovals vals.validators deletes)
  modify fun vals => { vals with validators := merged }
  let keys ← Method.of (checkAllKeysHaveSameType "" merged)
  modify fun vals => { vals with allKeysHaveSameType := keys }
  let total ← Method.of (updateTotalVotingPower merged)
  modify fun vals => { vals with totalVotingPower := total }
  let rescaled ← Method.of (rescalePriorities (wrap64 (priorityWindowSizeFactor * total)) merged)
  modify fun vals => { vals with validators := rescaled }
  let shifted ← Method.of (shiftByAvgProposerPriority rescaled)
  modify fun vals => { vals with validators := sortByVotingPower shifted }

/-- `updateWithChangeSet`, in place. -/
def updateInPlace (changes : List Validator) (allowDeletes : Bool) : Method Unit :=
  if changes = [] then pure ()
  else do
    let (updates, deletes) ← Method.of (processChanges changes)
    let vals ← get
    if !allowDeletes && deletes ≠ [] then throw (.err (.deletesNotAllowed deletes))
    else if numNewValidators updates vals.validators = 0 ∧
        vals.validators.length = deletes.length then throw (.err .emptySet)
    else do
      let removedVotingPower ← Method.of (verifyRemovals deletes vals.validators)
      cacheTotalVotingPower
      let vals ← get
      let tvpAfterUpdatesBeforeRemovals ← Method.of (verifyUpdates updates vals removedVotingPower)
      applyInPlace (computeNewPriorities updates vals.validators tvpAfterUpdatesBeforeRemovals) deletes

/-- **In place or not**, the changes do the same. -/
theorem result_updateInPlace (changes : List Validator) (allowDeletes : Bool) (vals : ValidatorSet) :
    (updateInPlace changes allowDeletes).result vals =
      vals.updateWithChangeSet changes allowDeletes := by
  unfold updateInPlace updateWithChangeSet applyChangeSet
  split_ifs
  · rfl
  rw [result_of, bind_assoc]
  refine bind_congr fun (updates, deletes) => ?_
  rw [result_get]
  dsimp only
  split_ifs
  · rfl
  · rfl
  rw [result_of, bind_assoc]
  refine bind_congr fun removed => ?_
  unfold cacheTotalVotingPower verifyUpdates
  simp only [bind_assoc, result_get, result_of]
  cases htotal : vals.getTotalVotingPower with
  | error e => rfl
  | ok total =>
    have hcached : { vals with totalVotingPower := total }.getTotalVotingPower = .ok total := by
      unfold getTotalVotingPower at htotal ⊢
      by_cases hzero : total = 0
      · subst hzero
        rw [if_pos rfl]
        by_cases hv : vals.totalVotingPower = 0
        · rwa [if_pos hv] at htotal
        · rw [if_neg hv] at htotal
          exact absurd (Except.ok.inj htotal) hv
      · exact if_neg hzero
    rw [bind_of_ok rfl, bind_of_ok rfl]
    simp only [bind_assoc, result_modify, result_get, result_of, applyInPlace, hcached]
    rfl

end ValidatorSet

/-! ### How the parts fail -/

variable {v : Validator}

namespace Validators

variable {vals existing updates deletes : List Validator}

variable {f : Failure}

theorem checkAllKeysHaveSameType_error {t : String} (h : checkAllKeysHaveSameType t vals = .error f) :
    f = .panic nilDereference := by
  induction vals generalizing t with
  | nil => cases h
  | cons v vals ih =>
    rw [checkAllKeysHaveSameType] at h
    cases hkey : v.pubKey with
    | none =>
      rw [hkey] at h
      dsimp only at h
      split at h
      · exact ih h
      · exact (Except.error.inj h).symm
    | some key =>
      rw [hkey] at h
      dsimp only at h
      generalize (if t = "" then key.type else t) = t' at h
      split at h
      · cases h
      · exact ih h

theorem rescalePriorities_error {diffMax : ℤ} (h : rescalePriorities diffMax vals = .error f) :
    f = .panic "empty validator set" ∨ f = .panic "integer divide by zero" := by
  unfold rescalePriorities at h
  dsimp only at h
  split_ifs at h
  · exact .inl (Except.error.inj h).symm
  · exact .inr (Except.error.inj h).symm

theorem shiftByAvgProposerPriority_error (h : shiftByAvgProposerPriority vals = .error f) :
    f = .panic "empty validator set" ∨
      f = .panic "Cannot represent avg ProposerPriority as an int64" := by
  unfold shiftByAvgProposerPriority computeAvgProposerPriority at h
  dsimp only at h
  split_ifs at h
  · exact .inl (Except.error.inj h).symm
  · cases h
  · exact .inr (Except.error.inj h).symm

/-! ### The two merges -/

theorem subset_mergeOne {e : Validator} {rest : List Validator → List Validator}
    (hrest : ∀ us, us ⊆ rest us) : updates ⊆ mergeOne e rest updates := by
  induction updates with
  | nil => exact nil_subset _
  | cons u us ih =>
    unfold mergeOne
    split_ifs
    · exact subset_cons_of_subset _ (hrest _)
    · exact cons_subset_cons u (hrest us)
    · exact cons_subset_cons u ih

/-- Who is not updated stays. -/
theorem mem_mergeOne_of_existing {e : Validator} {rest : List Validator → List Validator}
    (hrest : ∀ us, v ∈ existing → v.address ∉ addresses us → v ∈ rest us)
    (hv : v ∈ e :: existing) (hnot : v.address ∉ addresses updates) :
    v ∈ mergeOne e rest updates := by
  induction updates with
  | nil => exact mem_cons.mpr ((mem_cons.mp hv).imp_right fun hv => hrest _ hv hnot)
  | cons u us ih =>
    obtain ⟨hne, hnot'⟩ := not_or.mp fun h => hnot (mem_cons.mpr h)
    unfold mergeOne
    split_ifs with hlt heq
    · exact mem_cons.mpr ((mem_cons.mp hv).imp_right fun hv => hrest _ hv hnot)
    · rcases mem_cons.mp hv with rfl | hv
      · exact absurd heq hne
      · exact mem_cons_of_mem u (hrest us hv hnot')
    · exact mem_cons_of_mem u (ih hnot')

theorem subset_mergeUpdates (existing updates : List Validator) :
    updates ⊆ mergeUpdates existing updates := by
  induction existing generalizing updates with
  | nil => exact List.Subset.refl _
  | cons e existing ih => exact subset_mergeOne ih

theorem mem_mergeUpdates_of_existing (hv : v ∈ existing) (hnot : v.address ∉ addresses updates) :
    v ∈ mergeUpdates existing updates := by
  induction existing generalizing updates with
  | nil => cases hv
  | cons e existing ih => exact mem_mergeOne_of_existing (fun _ => ih) hv hnot

/-- **The first merge**: the updates, and who is not updated. -/
theorem mem_mergeUpdates_iff (he : Ascending existing) (hu : Ascending updates) :
    v ∈ mergeUpdates existing updates ↔
      v ∈ updates ∨ v ∈ existing ∧ v.address ∉ addresses updates := by
  refine ⟨fun hv => ?_, fun h => h.elim (fun hv => subset_mergeUpdates existing updates hv)
    fun h => mem_mergeUpdates_of_existing h.1 h.2⟩
  -- an update with the same address is in the list too, and no address comes twice
  rcases mem_mergeUpdates hv with hv' | hv'
  · exact .inl hv'
  · refine or_iff_not_imp_right.mpr fun hnot => ?_
    obtain ⟨u, hu', huv⟩ := mem_map.mp (not_not.mp fun h => hnot ⟨hv', h⟩)
    have hnodup := (mergeUpdates_ascending he hu).nodup
    exact inj_on_of_nodup_map hnodup (subset_mergeUpdates _ _ hu') hv huv ▸ hu'

/-- **The second merge** takes out the deleted ones, all of which it finds. -/
theorem applyRemovals_eq (he : (addresses existing).Nodup)
    (hsub : (addresses deletes).Sublist (addresses existing)) :
    applyRemovals existing deletes =
      .ok (existing.filter fun v => v.address ∉ addresses deletes) := by
  induction existing generalizing deletes with
  | nil =>
    cases deletes with
    | nil => rfl
    | cons d deletes => cases hsub
  | cons e existing ih =>
    obtain ⟨hnot, he⟩ := nodup_cons.mp he
    cases deletes with
    | nil => exact congrArg Except.ok (filter_eq_self.mpr fun v _ => rfl).symm
    | cons d deletes =>
      have hcons : addresses (d :: deletes) = d.address :: addresses deletes := rfl
      rw [applyRemovals]
      split_ifs with heq
      · have hsub' : (addresses deletes).Sublist (addresses existing) :=
          (cons_sublist_cons'.mp hsub).elim (sublist_of_cons_sublist ·) And.right
        rw [ih he hsub', filter_cons_of_neg (by simp [hcons, heq])]
        refine congrArg Except.ok (filter_congr fun v hv => ?_)
        have hne : v.address ≠ d.address := fun h => hnot (heq ▸ h ▸ mem_map_of_mem hv)
        simp [hcons, hne]
      · -- the first to be deleted is further on, and so are the others
        have hsub' : (addresses (d :: deletes)).Sublist (addresses existing) :=
          (cons_sublist_cons'.mp hsub).resolve_right fun h => heq h.1.symm
        rw [ih he hsub', filter_cons_of_pos (by simpa using fun h => hnot (hsub'.subset h))]
        rfl

/-! ### The total power -/

/-- The power of the validators at some addresses. -/
theorem powerSum_filter (hnodup : (addresses vals).Nodup) {changes : List Validator}
    (hchanges : (addresses changes).Nodup) :
    powerSum (vals.filter fun v => v.address ∈ addresses changes) = powersIn vals changes := by
  have hsub : ((addresses changes).toFinset ∩ (addresses vals).toFinset) ⊆
      (addresses changes).toFinset := Finset.inter_subset_left
  rw [powersIn, ← sum_addresses hchanges,
    ← Finset.sum_subset hsub fun a ha hnot => powerOf_eq_zero fun ha' =>
      hnot (Finset.mem_inter.mpr ⟨ha, ha'⟩), Finset.inter_comm]
  have hfin : (addresses vals).toFinset ∩ (addresses changes).toFinset =
      (addresses (vals.filter fun v => v.address ∈ addresses changes)).toFinset := by
    ext a
    simp only [Finset.mem_inter, mem_toFinset, addresses, mem_map, mem_filter,
      decide_eq_true_eq]
    constructor
    · rintro ⟨⟨v, hv, rfl⟩, hc⟩
      exact ⟨v, ⟨hv, hc⟩, rfl⟩
    · rintro ⟨v, ⟨hv, hc⟩, rfl⟩
      exact ⟨⟨v, hv, rfl⟩, hc⟩
  have hnodup' : (addresses (vals.filter fun v => v.address ∈ addresses changes)).Nodup :=
    hnodup.sublist (filter_sublist.map _)
  rw [hfin, sum_addresses hnodup' (powerOf vals)]
  refine congrArg sum (map_congr_left fun v hv => ?_)
  exact (powerOf_of_mem hnodup (mem_of_mem_filter hv)).symm

end Validators

/-! ### The new list -/

/-- What a set is expected to be: no address twice, positive powers, the total power within its limit
and cached, and the validators sorted by power, then by address. -/
structure ValidatorSet.Proper (vals : ValidatorSet) : Prop where
  nodup : (addresses vals.validators).Nodup
  pos : ∀ v ∈ vals.validators, 0 < v.votingPower
  total : vals.totalVotingPower = powerSum vals.validators
  total_le : powerSum vals.validators ≤ maxTotalVotingPower
  sorted : vals.validators.Pairwise fun a b =>
    a.votingPower > b.votingPower ∨ a.votingPower = b.votingPower ∧ a.address ≤ b.address

/-- The list after both merges. -/
def mergedOf (vals updates deletes : List Validator) (tvp : ℤ) : List Validator :=
  (applyUpdates vals (computeNewPriorities updates vals tvp)).filter fun v =>
    v.address ∉ addresses deletes

namespace Validators

variable {vals updates deletes changes : List Validator} {tvp : ℤ}

section

variable (hs : Split changes updates deletes)

include hs

theorem Split.mem_append (c : Validator) : c ∈ updates ++ deletes ↔ c ∈ changes := by
  rw [List.mem_append, hs.mem_updates, hs.mem_deletes, ← and_or_left]
  exact and_iff_left (em' _)

theorem Split.mem_addresses (a : Bytes) :
    a ∈ addresses updates ∨ a ∈ addresses deletes ↔ a ∈ addresses changes := by
  unfold addresses
  rw [← List.mem_append, ← List.map_append, List.mem_map, List.mem_map]
  simp only [hs.mem_append]

theorem Split.disjoint {a : Bytes} (ha : a ∈ addresses updates) : a ∉ addresses deletes := by
  have hnodup := hs.nodup
  rw [addresses, map_append] at hnodup
  exact fun hd => (disjoint_of_nodup_append hnodup) ha hd

/-- No two changes have the same address. -/
theorem Split.eq_of_address {c d : Validator} (hc : c ∈ changes) (hd : d ∈ changes)
    (h : c.address = d.address) : c = d :=
  inj_on_of_nodup_map hs.nodup ((hs.mem_append c).mpr hc) ((hs.mem_append d).mpr hd) h

end

section

variable (hnodup : (addresses vals).Nodup) (hs : Split changes updates deletes)

include hnodup hs

/-- Who is in the new list: the updates, and who is not changed. -/
theorem mem_mergedOf : v ∈ mergedOf vals updates deletes tvp ↔
      v ∈ computeNewPriorities updates vals tvp ∨ v ∈ vals ∧ v.address ∉ addresses changes := by
  have haddr := addresses_of_shape (shape_computeNewPriorities updates vals tvp)
  rw [mergedOf, mem_filter, applyUpdates, mem_mergeUpdates_iff (sortByAddress_ascending hnodup)
    (computeNewPriorities_ascending hs.updates_ascending vals tvp), haddr,
    (sortByAddress_perm vals).mem_iff, decide_eq_true_eq, ← hs.mem_addresses]
  constructor
  · rintro ⟨hv | ⟨hv, hnot⟩, hd⟩
    · exact .inl hv
    · exact .inr ⟨hv, fun h => h.elim hnot hd⟩
  · rintro (hv | ⟨hv, hnot⟩)
    · exact ⟨.inl hv, hs.disjoint (haddr ▸ mem_map_of_mem hv)⟩
    · exact ⟨.inr ⟨hv, fun h => hnot (.inl h)⟩, fun h => hnot (.inr h)⟩

theorem mergedOf_ascending : Ascending (mergedOf vals updates deletes tvp) :=
  (mergeUpdates_ascending (sortByAddress_ascending hnodup)
    (computeNewPriorities_ascending hs.updates_ascending vals tvp)).sublist filter_sublist

theorem shape_of_mem_mergedOf (hv : v ∈ mergedOf vals updates deletes tvp) :
    (∃ c ∈ updates, c.shape = v.shape) ∨
      ∃ u ∈ vals, u.shape = v.shape ∧ u.address ∉ addresses changes := by
  rcases (mem_mergedOf hnodup hs).mp hv with hu | ⟨hu, hnot⟩
  · exact .inl (exists_of_mem_computeNewPriorities hu)
  · exact .inr ⟨v, hu, rfl, hnot⟩

/-- The addresses of the new list: the old ones that are not deleted, and the updated ones. -/
theorem mem_addresses_mergedOf {a : Bytes} : a ∈ addresses (mergedOf vals updates deletes tvp) ↔
      (a ∈ addresses vals ∧ ∀ c ∈ changes, c.address = a → c.votingPower ≠ 0) ∨
        ∃ c ∈ changes, c.address = a ∧ c.votingPower ≠ 0 := by
  have haddr := addresses_of_shape (shape_computeNewPriorities updates vals tvp)
  have hupd : ∀ c ∈ changes, c.votingPower ≠ 0 →
      c.address ∈ addresses (mergedOf vals updates deletes tvp) := by
    intro c hc hne
    have hc' : c.address ∈ addresses (computeNewPriorities updates vals tvp) :=
      haddr ▸ mem_map_of_mem ((hs.mem_updates c).mpr ⟨hc, hne⟩)
    obtain ⟨w, hw, hwc⟩ := mem_map.mp hc'
    exact hwc ▸ mem_map_of_mem ((mem_mergedOf hnodup hs).mpr (.inl hw))
  constructor
  · intro ha
    obtain ⟨w, hw, rfl⟩ := mem_map.mp ha
    rcases (mem_mergedOf hnodup hs).mp hw with hu | ⟨hu, hnot⟩
    · have hu' : w.address ∈ addresses updates := haddr ▸ mem_map_of_mem hu
      obtain ⟨c, hc, hcw⟩ := mem_map.mp hu'
      exact .inr ⟨c, ((hs.mem_updates c).mp hc).1, hcw, ((hs.mem_updates c).mp hc).2⟩
    · exact .inl ⟨mem_map_of_mem hu, fun c hc hcw =>
        absurd (hcw ▸ mem_map_of_mem hc) hnot⟩
  · rintro (⟨ha, hnone⟩ | ⟨c, hc, rfl, hne⟩)
    · obtain ⟨u, hu, rfl⟩ := mem_map.mp ha
      by_cases hin : u.address ∈ addresses changes
      · obtain ⟨c, hc, hcu⟩ := mem_map.mp hin
        exact hcu ▸ hupd c hc (hnone c hc hcu)
      · exact mem_map_of_mem ((mem_mergedOf hnodup hs).mpr (.inr ⟨hu, hin⟩))
    · exact hupd c hc hne

end

/-- The removals go through. -/
theorem applyRemovals_mergedOf (tvp : ℤ) (hnodup : (addresses vals).Nodup)
    (hs : Split changes updates deletes)
    (hfound : addresses deletes ⊆ addresses vals) :
    applyRemovals (applyUpdates vals (computeNewPriorities updates vals tvp)) deletes =
      .ok (mergedOf vals updates deletes tvp) := by
  have hups := computeNewPriorities_ascending hs.updates_ascending vals tvp
  have haddr := addresses_of_shape (shape_computeNewPriorities updates vals tvp)
  have hasc := mergeUpdates_ascending (sortByAddress_ascending hnodup) hups
  refine applyRemovals_eq hasc.nodup (sublist_of_subperm_of_pairwise
    (hs.deletes_ascending.nodup.subperm fun a ha => ?_)
    (ascending_iff.mp hs.deletes_ascending) (ascending_iff.mp hasc))
  obtain ⟨v, hv, rfl⟩ := mem_map.mp (hfound ha)
  refine mem_map_of_mem ((mem_mergeUpdates_iff (sortByAddress_ascending hnodup) hups).mpr
    (.inr ⟨(sortByAddress_perm vals).mem_iff.mpr hv, fun hu => ?_⟩))
  exact hs.disjoint (haddr ▸ hu) ha

/-- **The total power** of the new list is the one that was verified. -/
theorem powerSum_mergedOf (hnodup : (addresses vals).Nodup) (hs : Split changes updates deletes) :
    powerSum (mergedOf vals updates deletes tvp) =
      powerSum vals + (powerSum updates - powersIn vals updates) - powersIn vals deletes := by
  have hshape := shape_computeNewPriorities updates vals tvp
  have hmem : ∀ a, a ∈ addresses (updates ++ deletes) ↔ a ∈ addresses changes := by
    intro a
    rw [addresses, map_append, mem_append]
    exact hs.mem_addresses a
  -- both lists have the same members, each once
  have hperm : (mergedOf vals updates deletes tvp).Perm (computeNewPriorities updates vals tvp ++
      vals.filter fun v => ¬v.address ∈ addresses (updates ++ deletes)) := by
    refine (perm_ext_iff_of_nodup (mergedOf_ascending hnodup hs).nodup.of_map ?_).mpr fun v => ?_
    · refine List.Nodup.append (computeNewPriorities_ascending hs.updates_ascending vals tvp).nodup.of_map
        (hnodup.of_map.filter _) ?_
      intro v hv hv'
      have hnot : v.address ∉ addresses (updates ++ deletes) := by
        simpa using (mem_filter.mp hv').2
      refine hnot ((hmem _).mpr ((hs.mem_addresses _).mp (.inl ?_)))
      exact addresses_of_shape hshape ▸ mem_map_of_mem hv
    · rw [mem_mergedOf hnodup hs, mem_append, mem_filter, decide_eq_true_eq, hmem]
  have hsplit : powerSum (vals.filter fun v => v.address ∈ addresses (updates ++ deletes)) +
      powerSum (vals.filter fun v => ¬v.address ∈ addresses (updates ++ deletes)) = powerSum vals := by
    rw [powerSum, powerSum, ← sum_append, ← map_append]
    refine ((List.Perm.map _ ?_).sum_eq)
    simpa using filter_append_perm (fun v => decide (v.address ∈ addresses (updates ++ deletes))) vals
  rw [powerSum_filter hnodup hs.nodup, powersIn, map_append, sum_append] at hsplit
  rw [powerSum, (hperm.map _).sum_eq, map_append, sum_append]
  have hups : ((computeNewPriorities updates vals tvp).map votingPower).sum =
      powerSum updates := powerSum_of_shape hshape
  unfold powersIn
  unfold powerSum at *
  omega

/-- Changes in another order are the same once they are sorted. -/
theorem processChanges_perm {changes' : List Validator} (hperm : changes.Perm changes')
    (h : processChanges changes = .ok (updates, deletes)) :
    processChanges changes' = .ok (updates, deletes) := by
  have hs := split_of_processChanges h
  have hperm' : (sortByAddress changes).Perm (sortByAddress changes') :=
    (sortByAddress_perm changes).trans (hperm.trans (sortByAddress_perm changes').symm)
  have heq : sortByAddress changes = sortByAddress changes' := by
    refine hperm'.eq_of_pairwise (fun a b ha hb hab hba => ?_) (sortByAddress_sorted changes)
      (sortByAddress_sorted changes')
    exact hs.eq_of_address ((sortByAddress_perm changes).mem_iff.mp ha)
      (hperm.mem_iff.mpr ((sortByAddress_perm changes').mem_iff.mp hb)) (le_antisymm hab hba)
  unfold processChanges
  rw [← heq]
  exact h

theorem sortByVotingPower_sorted (vals : List Validator) :
    (sortByVotingPower vals).Pairwise fun a b =>
      a.votingPower > b.votingPower ∨ a.votingPower = b.votingPower ∧ a.address ≤ b.address := by
  have : Std.Total fun a b : Validator =>
      a.votingPower > b.votingPower ∨ a.votingPower = b.votingPower ∧ a.address ≤ b.address := by
    refine ⟨fun a b => ?_⟩
    rcases lt_trichotomy a.votingPower b.votingPower with hlt | heq | hgt
    · exact .inr (.inl hlt)
    · exact (le_total a.address b.address).imp (fun h => .inr ⟨heq, h⟩) fun h => .inr ⟨heq.symm, h⟩
    · exact .inl (.inl hgt)
  have : IsTrans Validator fun a b =>
      a.votingPower > b.votingPower ∨ a.votingPower = b.votingPower ∧ a.address ≤ b.address := by
    refine ⟨fun a b c hab hbc => ?_⟩
    rcases hab with hab | ⟨hab, hle⟩
    · rcases hbc with hbc | ⟨hbc, -⟩
      · exact .inl (hbc.trans hab)
      · exact .inl (hbc ▸ hab)
    · rcases hbc with hbc | ⟨hbc, hle'⟩
      · exact .inl (hab ▸ hbc)
      · exact .inr ⟨hab.trans hbc, hle.trans hle'⟩
  exact pairwise_insertionSort _ vals

end Validators

/-! ### The method -/

section InPlace

variable {vals vals' : ValidatorSet} {changes updates deletes merged : List Validator} {tvp : ℤ}

/-- What the method has become of a set: every table entry that is changed, added or kept. -/
structure Updated (vals : ValidatorSet) (changes : List Validator) (vals' : ValidatorSet) : Prop where
  proper : vals'.Proper
  total_pos : changes ≠ [] ∨ vals.validators ≠ [] → 0 < vals'.totalVotingPower
  mem_iff : ∀ a, a ∈ addresses vals'.validators ↔
    (a ∈ addresses vals.validators ∧ ∀ c ∈ changes, c.address = a → c.votingPower ≠ 0) ∨
      ∃ c ∈ changes, c.address = a ∧ c.votingPower ≠ 0
  changed : ∀ v ∈ vals'.validators, ∀ c ∈ changes, c.address = v.address →
    v.votingPower = c.votingPower
  kept : ∀ v ∈ vals'.validators, v.address ∉ addresses changes →
    ∃ u ∈ vals.validators, u.shape = v.shape

/-- The total power is cached already. -/
theorem ValidatorSet.Proper.call_cacheTotal (hv : vals.Proper) (f : Unit → Method Unit) :
    call (cacheTotalVotingPower >>= f) vals = call (f ()) vals := by
  have hset : { vals with totalVotingPower := powerSum vals.validators } = vals := by
    rw [← hv.total]
  unfold cacheTotalVotingPower
  rw [bind_assoc, call_get, bind_assoc,
    call_of_ok (getTotalVotingPower_eq hv.total hv.pos), call_modify, hset]

/-- What the new list is known to be once the changes are verified. -/
structure Verified (vals : ValidatorSet) (changes updates deletes : List Validator) (tvp : ℤ) :
    Prop where
  split : processChanges changes = .ok (updates, deletes)
  found : addresses deletes ⊆ addresses vals.validators
  total_le : powerSum (mergedOf vals.validators updates deletes tvp) ≤ maxTotalVotingPower
  ne_nil : mergedOf vals.validators updates deletes tvp ≠ []

/-- Before anything is changed the method returns an error, or the changes are verified. -/
theorem ValidatorSet.Proper.call_updateInPlace (hv : vals.Proper) (hne : changes ≠ [])
    (hsplit : processChanges changes = .ok (updates, deletes)) :
    (∃ e, call (updateInPlace changes true) vals = (.error (.err e), vals)) ∨
      ∃ tvp, Verified vals changes updates deletes tvp ∧
        call (updateInPlace changes true) vals =
          call (applyInPlace (computeNewPriorities updates vals.validators tvp)
            deletes) vals := by
  have hs := split_of_processChanges hsplit
  have hmaxval := maxTotalVotingPower_eq
  unfold updateInPlace
  rw [if_neg hne, call_of_ok hsplit]
  dsimp only
  rw [call_get]
  simp only [Bool.not_true, Bool.false_and, Bool.false_eq_true, if_false]
  by_cases hempty : numNewValidators updates vals.validators = 0 ∧
      vals.validators.length = deletes.length
  · rw [if_pos hempty]
    exact .inl ⟨_, rfl⟩
  rw [if_neg hempty]
  obtain ⟨hle, hfits⟩ := hs.powersIn_le hv.nodup hv.pos hv.total_le
  rcases verifyRemovals_cases hv.pos hs.deletes_ascending.nodup hfits with ⟨e, he⟩ | ⟨hsub, hremovals⟩
  · exact .inl ⟨e, call_of_error he _ _⟩
  rw [call_of_ok hremovals, hv.call_cacheTotal, call_get]
  rcases verifyUpdates_cases hv.pos hv.total hv.total_le hs.powers (powersIn_nonneg hv.pos deletes)
    hle with ⟨e, he⟩ | ⟨tvp, hupdates, -, htotal, htvp⟩
  · exact .inl ⟨e, call_of_error he _ _⟩
  refine .inr ⟨tvp, ⟨hsplit, hsub, ?_, ?_⟩, call_of_ok hupdates _ _⟩
  · rw [powerSum_mergedOf hv.nodup hs]
    omega
  · -- somebody joins, or somebody is left
    intro hnil
    have hnone : ∀ v, v ∉ mergedOf vals.validators updates deletes tvp := by
      rw [hnil]
      exact fun _ => not_mem_nil
    have hups : updates = [] := by
      have hmap : computeNewPriorities updates vals.validators tvp = [] :=
        eq_nil_iff_forall_not_mem.mpr fun v hv' =>
          hnone v ((mem_mergedOf hv.nodup hs).mpr (.inl hv'))
      exact map_eq_nil_iff.mp hmap
    subst hups
    refine hempty ⟨rfl, ?_⟩
    have hsub' : addresses vals.validators ⊆ addresses deletes := by
      intro a ha
      obtain ⟨v, hv', rfl⟩ := mem_map.mp ha
      have hmem : v.address ∈ addresses changes := by
        by_contra hnot
        exact hnone v ((mem_mergedOf hv.nodup hs).mpr (.inr ⟨hv', hnot⟩))
      exact ((hs.mem_addresses _).mpr hmem).resolve_left not_mem_nil
    have hlen₁ := (hv.nodup.subperm hsub').length_le
    have hlen₂ := (hs.deletes_ascending.nodup.subperm hsub).length_le
    simp only [addresses, length_map] at hlen₁ hlen₂
    omega

/-- The failures that are left: a validator without a key, and priorities out of bounds. -/
def FailsLater (f : Failure) : Prop :=
  f = .panic nilDereference ∨ f = .panic "empty validator set" ∨
    f = .panic "integer divide by zero" ∨
    f = .panic "Cannot represent avg ProposerPriority as an int64"

/-- Applying verified changes: nothing fails in the removals or in the total power. -/
theorem Verified.call_applyInPlace (hv : vals.Proper) (h : Verified vals changes updates deletes tvp) :
    (∃ f, FailsLater f ∧ (call (applyInPlace
      (computeNewPriorities updates vals.validators tvp) deletes) vals).1 = .error f) ∨
    ∃ keys shifted,
      shifted.map shape =
        (mergedOf vals.validators updates deletes tvp).map shape ∧
      call (applyInPlace (computeNewPriorities updates vals.validators tvp)
        deletes) vals = (.ok (), { vals with
          validators := sortByVotingPower shifted
          totalVotingPower := powerSum (mergedOf vals.validators updates deletes tvp)
          allKeysHaveSameType := keys }) := by
  have hs := split_of_processChanges h.split
  have hpos : ∀ v ∈ mergedOf vals.validators updates deletes tvp, 0 ≤ v.votingPower := by
    intro v hv'
    rcases (mem_mergedOf hv.nodup hs).mp hv' with hu | hu
    · exact (power_of_shape (P := fun p => 0 < p ∧ p ≤ maxTotalVotingPower)
        (shape_computeNewPriorities updates vals.validators tvp) hs.powers v hu).1.le
    · exact (hv.pos v hu.1).le
  have hremovals := applyRemovals_mergedOf tvp hv.nodup hs h.found
  have htotal := updateTotalVotingPower_of_le hpos h.total_le
  generalize mergedOf vals.validators updates deletes tvp = merged at *
  unfold applyInPlace
  rw [call_modify, call_get, call_of_ok hremovals, call_modify]
  cases hkeys : checkAllKeysHaveSameType "" merged with
  | error f =>
    refine .inl ⟨f, .inl (checkAllKeysHaveSameType_error hkeys), ?_⟩
    rw [call_of_error rfl]
  | ok keys =>
    rw [call_of_ok rfl, call_modify, call_of_ok htotal, call_modify]
    cases hrescale : rescalePriorities (wrap64 (priorityWindowSizeFactor * powerSum merged)) merged with
    | error f =>
      refine .inl ⟨f, ?_, ?_⟩
      · rcases rescalePriorities_error hrescale with hf | hf
        · exact .inr (.inl hf)
        · exact .inr (.inr (.inl hf))
      · rw [call_of_error rfl]
    | ok rescaled =>
      rw [call_of_ok rfl, call_modify]
      cases hshift : shiftByAvgProposerPriority rescaled with
      | error f =>
        refine .inl ⟨f, ?_, ?_⟩
        · rcases shiftByAvgProposerPriority_error hshift with hf | hf
          · exact .inr (.inl hf)
          · exact .inr (.inr (.inr hf))
        · rw [call_of_error rfl]
      | ok shifted =>
        refine .inr ⟨keys, shifted, ?_, ?_⟩
        · exact (shape_of_shiftByAvg hshift).trans (shape_of_rescalePriorities hrescale)
        · rw [call_of_ok rfl]
          rfl

theorem Verified.updated (hv : vals.Proper) (h : Verified vals changes updates deletes tvp)
    {keys : Bool} {shifted : List Validator}
    (hshape : shifted.map shape =
      (mergedOf vals.validators updates deletes tvp).map shape) :
    Updated vals changes { vals with
      validators := sortByVotingPower shifted
      totalVotingPower := powerSum (mergedOf vals.validators updates deletes tvp)
      allKeysHaveSameType := keys } := by
  have hs := split_of_processChanges h.split
  have hperm := sortByVotingPower_perm shifted
  have hsum : powerSum (sortByVotingPower shifted) =
      powerSum (mergedOf vals.validators updates deletes tvp) :=
    (hperm.map _).sum_eq.trans (powerSum_of_shape hshape)
  have haddr : (addresses (sortByVotingPower shifted)).Perm
      (addresses (mergedOf vals.validators updates deletes tvp)) :=
    addresses_of_shape hshape ▸ hperm.map address
  have hmem : ∀ v ∈ sortByVotingPower shifted, (∃ c ∈ updates, c.shape = v.shape) ∨
      ∃ u ∈ vals.validators, u.shape = v.shape ∧ u.address ∉ addresses changes := by
    intro v hv'
    have hv'' : v.shape ∈ (mergedOf vals.validators updates deletes tvp).map shape :=
      hshape ▸ mem_map_of_mem (hperm.mem_iff.mp hv')
    obtain ⟨w, hw, hwv⟩ := mem_map.mp hv''
    exact hwv ▸ shape_of_mem_mergedOf hv.nodup hs hw
  have hpos : ∀ v ∈ sortByVotingPower shifted, 0 < v.votingPower := by
    intro v hv'
    rcases hmem v hv' with ⟨c, hc, hcv⟩ | ⟨u, hu, huv, -⟩
    · exact (congrArg (fun x => x.2.2) hcv : c.votingPower = v.votingPower) ▸ (hs.powers c hc).1
    · exact (congrArg (fun x => x.2.2) huv : u.votingPower = v.votingPower) ▸ hv.pos u hu
  refine ⟨⟨?_, hpos, hsum.symm, hsum.trans_le h.total_le, sortByVotingPower_sorted shifted⟩,
    fun _ => ?_, fun a => ?_, fun v hv' c hc hca => ?_, fun v hv' hnot => ?_⟩
  · exact haddr.nodup_iff.mpr (mergedOf_ascending hv.nodup hs).nodup
  · obtain ⟨v, hv'⟩ := exists_mem_of_ne_nil _ h.ne_nil
    obtain ⟨w, hw, -⟩ := mem_map.mp (haddr.mem_iff.mpr (mem_map_of_mem hv'))
    exact hsum ▸ (hpos w hw).trans_le (votingPower_le_powerSum hpos hw)
  · exact haddr.mem_iff.trans (mem_addresses_mergedOf hv.nodup hs)
  · rcases hmem v hv' with ⟨d, hd, hdv⟩ | ⟨u, hu, huv, hnot⟩
    · have hda : d.address = v.address := congrArg Prod.fst hdv
      obtain rfl : c = d := hs.eq_of_address hc ((hs.mem_updates d).mp hd).1 (hca.trans hda.symm)
      exact (congrArg (fun x => x.2.2) hdv : c.votingPower = v.votingPower).symm
    · have hua : u.address = v.address := congrArg Prod.fst huv
      exact absurd (hua.symm ▸ hca ▸ mem_map_of_mem hc) hnot
  · rcases hmem v hv' with ⟨d, hd, hdv⟩ | ⟨u, hu, huv, -⟩
    · have hda : d.address = v.address := congrArg Prod.fst hdv
      exact absurd (hda ▸ mem_map_of_mem ((hs.mem_updates d).mp hd).1) hnot
    · exact ⟨u, hu, huv⟩

/-- The method fails in the ways that are left, returns an error with the set as it was, or updates the
table. -/
theorem ValidatorSet.Proper.call_cases (hv : vals.Proper) (changes : List Validator) :
    (∃ e, call (updateInPlace changes true) vals = (.error (.err e), vals)) ∨
      (∃ f, FailsLater f ∧
        (call (updateInPlace changes true) vals).1 = .error f) ∨
      ∃ vals', call (updateInPlace changes true) vals = (.ok (), vals') ∧
        Updated vals changes vals' := by
  by_cases hne : changes = []
  · subst hne
    refine .inr (.inr ⟨vals, rfl, hv, fun hne => ?_, fun a => ?_, nofun, fun v hv' _ => ⟨v, hv', rfl⟩⟩)
    · exact hv.total ▸ powerSum_pos (hne.resolve_left (absurd rfl)) hv.pos
    · simp
  rcases processChanges_cases changes with ⟨e, he⟩ | ⟨updates, deletes, hsplit, -⟩
  · refine .inl ⟨e, ?_⟩
    unfold updateInPlace
    rw [if_neg hne, call_of_error he]
  rcases hv.call_updateInPlace hne hsplit with herr | ⟨tvp, hver, hcall⟩
  · exact .inl herr
  rw [hcall]
  rcases hver.call_applyInPlace hv with hfail | ⟨keys, shifted, hshape, hok⟩
  · exact .inr (.inl hfail)
  · exact .inr (.inr ⟨_, hok, hver.updated hv hshape⟩)

/-- In another order the changes do the same. -/
theorem call_perm {changes' : List Validator} (hperm : changes.Perm changes') (vals : ValidatorSet) :
    call (updateInPlace changes' true) vals =
        call (updateInPlace changes true) vals ∨
      ∃ e e', call (updateInPlace changes true) vals = (.error (.err e), vals) ∧
        call (updateInPlace changes' true) vals = (.error (.err e'), vals) := by
  by_cases hne : changes = []
  · subst hne
    rw [nil_perm.mp hperm]
    exact .inl rfl
  have hne' : changes' ≠ [] := fun hnil => hne (perm_nil.mp (hnil ▸ hperm))
  unfold updateInPlace
  rw [if_neg hne, if_neg hne']
  rcases processChanges_cases changes with ⟨e, he⟩ | ⟨updates, deletes, hok, -⟩
  · rcases processChanges_cases changes' with ⟨e', he'⟩ | ⟨updates, deletes, hok', -⟩
    · exact .inr ⟨e, e', call_of_error he _ _, call_of_error he' _ _⟩
    · cases he.symm.trans (processChanges_perm hperm.symm hok')
  · rw [processChanges_perm hperm hok, hok]
    exact .inl rfl

/-- **`UpdateWithChangeSet` is an atomic keyed update**: with an error the set is as it was; without one
the addresses are the old ones without those of power zero in the changes and with the new ones, their
powers those of the changes or the old ones, sorted, with the total power cached and within its limit;
changes in another order give the same set, or an error in both orders; and neither the removals nor
the total power panic. -/
theorem updateWithChangeSet_keyed (vals : ValidatorSet) (hv : vals.Proper) (changes : List Validator) :
    (∀ e, (call (updateInPlace changes true) vals).1 = .error (.err e) →
      (call (updateInPlace changes true) vals).2 = vals) ∧
    ((call (updateInPlace changes true) vals).1 = .ok () →
      Updated vals changes (call (updateInPlace changes true) vals).2) ∧
    (∀ changes', changes.Perm changes' →
      (call (updateInPlace changes' true) vals).2 =
          (call (updateInPlace changes true) vals).2 ∧
        ((call (updateInPlace changes' true) vals).1 = .ok () ↔
          (call (updateInPlace changes true) vals).1 = .ok ())) ∧
    (call (updateInPlace changes true) vals).1 ≠ .error (.panic "index out of range") ∧
    (call (updateInPlace changes true) vals).1 ≠ .error (.panic totalExceeded) := by
  refine ⟨?_, ?_, fun changes' hperm => ?_, ?_⟩
  · intro e he
    rcases hv.call_cases changes with ⟨e', hcall⟩ | ⟨f, hf, hcall⟩ | ⟨vals', hcall, -⟩
    · rw [hcall]
    · rw [hcall] at he
      obtain rfl := Except.error.inj he
      rcases hf with hf | hf | hf | hf
      all_goals cases hf
    · rw [hcall] at he
      cases he
  · intro hok
    rcases hv.call_cases changes with ⟨e, hcall⟩ | ⟨f, -, hcall⟩ | ⟨vals', hcall, hupd⟩
    · rw [hcall] at hok
      cases hok
    · rw [hcall] at hok
      cases hok
    · rw [hcall]
      exact hupd
  · rcases call_perm hperm vals with hsame | ⟨e, e', hcall, hcall'⟩
    · rw [hsame]
      exact ⟨rfl, Iff.rfl⟩
    · rw [hcall, hcall']
      exact ⟨rfl, ⟨nofun, nofun⟩⟩
  · rcases hv.call_cases changes with ⟨e, hcall⟩ | ⟨f, hf, hcall⟩ | ⟨vals', hcall, -⟩
    · rw [hcall]
      exact ⟨nofun, nofun⟩
    · rw [hcall]
      rcases hf with rfl | rfl | rfl | rfl
      all_goals exact ⟨by decide, by decide⟩
    · rw [hcall]
      exact ⟨nofun, nofun⟩

/-- One of two validators leaves, another one joins. -/
theorem updateWithChangeSet_keyed_pair :
    Updated pair [⟨[3], none, 2, 0⟩, ⟨[2], none, 0, 0⟩]
      (call (updateInPlace [⟨[3], none, 2, 0⟩, ⟨[2], none, 0, 0⟩] true) pair).2 := by
  refine (updateWithChangeSet_keyed pair ⟨?_, ?_, rfl, ?_, ?_⟩ _).2.1 rfl
  · decide
  · decide
  · decide
  · decide

end InPlace

end CometBFT.Types
