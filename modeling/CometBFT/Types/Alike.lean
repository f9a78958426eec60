import CometBFT.Types.Shape
import CometBFT.Types.Validation

/-!
# What does not depend on the priorities

Two validator sets that differ in the priorities and the proposer only verify the same commits, and
give the same median time. The proposer's key decides whether signatures are verified in a batch, but
only where all keys have one type.

## Main results

* `Alike.medianTime` — the median time is the same
* `Alike.verifyCommit` — a commit that is valid for one of the sets is valid for the other
-/

namespace CometBFT.Types

open Validators List Validator Check

theorem supportsBatchVerifier_eq (v : Validator) :
    supportsBatchVerifier v.pubKey = decide (v.keyType = ed25519KeyType) := by
  unfold supportsBatchVerifier keyType
  cases v.pubKey with
  | none => rfl
  | some key => rfl

variable {vals : ValidatorSet}

theorem proposerPubKey_of_some {m : Validator} (hm : m ∈ vals.validators)
    (h : vals.proposer = some m) : proposerPubKey vals = .ok m.pubKey := by
  unfold proposerPubKey ValidatorSet.getProposer
  rw [if_neg (ne_nil_of_mem hm), h]
  rfl

/-- The sum is over the powers. -/
theorem updateTotalVotingPower_of_shape {vals vals' : List Validator}
    (h : vals'.map shape = vals.map shape) :
    updateTotalVotingPower vals' = updateTotalVotingPower vals := by
  have hmap : ∀ l : List Validator, updateTotalVotingPower l =
      (l.map shape).foldlM (fun sum s =>
        let sum := safeAddClip sum s.2.2
        if sum > maxTotalVotingPower then
          .error (.panic totalExceeded)
        else .ok sum) 0 := by
    intro l
    rw [foldlM_map]
    rfl
  rw [hmap, hmap, h]

theorem getTotalVotingPower_of_shape {vals' : ValidatorSet}
    (h : vals'.validators.map shape = vals.validators.map shape)
    (htotal : vals'.totalVotingPower = vals.totalVotingPower) :
    vals'.getTotalVotingPower = vals.getTotalVotingPower := by
  unfold ValidatorSet.getTotalVotingPower
  rw [htotal, updateTotalVotingPower_of_shape h]

/-- The search by address is over the shapes. -/
theorem getByAddress_of_shape {vals' : ValidatorSet}
    (h : vals'.validators.map shape = vals.validators.map shape)
    (address : Bytes) : (vals'.getByAddress address).map (fun p => p.2.shape) =
      (vals.getByAddress address).map (fun p => p.2.shape) := by
  have hfind : ∀ l : List Validator, ∀ i,
      ((l.zipIdx i).find? fun p => p.1.address = address).map (fun p => p.1.shape) =
        (l.map shape).find? fun s => s.1 = address := by
    intro l
    induction l with
    | nil => exact fun _ => rfl
    | cons v l ih =>
      intro i
      rw [zipIdx_cons, map_cons, find?_cons, find?_cons]
      by_cases hv : v.address = address
      · have hs : v.shape.1 = address := hv
        simp only [hv, hs, decide_true]
        rfl
      · have hs : v.shape.1 ≠ address := hv
        simp only [hv, hs, decide_false]
        exact ih (i + 1)
  unfold ValidatorSet.getByAddress
  rw [Option.map_map, Option.map_map]
  have hfound := hfind vals'.validators 0
  rw [h] at hfound
  exact hfound.trans (hfind vals.validators 0).symm

/-- A batch is verified if the proposer has an ed25519 key and the keys are said to have one type. -/
theorem of_shouldBatchVerify {commit : Commit} (h : shouldBatchVerify vals commit = .ok true) :
    ∃ pubKey, proposerPubKey vals = .ok pubKey ∧
      ¬(supportsBatchVerifier pubKey = false ∨ commit.signatures.length < batchVerifyThreshold) ∧
      supportsBatchVerifier pubKey = true ∧ vals.allKeysHaveSameType = true := by
  unfold shouldBatchVerify at h
  split_ifs at h with hlt
  · cases h
  · obtain ⟨pubKey, hkey, h⟩ := ok_of_bind h
    obtain ⟨hsupports, hsame⟩ := Bool.and_eq_true_iff.mp (Except.ok.inj h)
    exact ⟨pubKey, hkey, by simp [hsupports, hlt], hsupports, hsame⟩

/-- The sets agree in all but the priorities and the proposer, who is one of the validators. -/
structure Alike (vals vals' : ValidatorSet) : Prop where
  shape : vals'.validators.map shape = vals.validators.map shape
  total : vals'.totalVotingPower = vals.totalVotingPower
  sameType : vals'.allKeysHaveSameType = vals.allKeysHaveSameType
  keyTypes : vals.allKeysHaveSameType = true →
    ∀ v ∈ vals.validators, ∀ u ∈ vals.validators, v.keyType = u.keyType
  proposer : ∃ m ∈ vals.validators, vals.proposer = some m
  proposer' : ∃ m ∈ vals'.validators, vals'.proposer = some m

namespace Alike

variable {vals vals' : ValidatorSet} (h : Alike vals vals')

include h

/-- The validator at an index, in the other set. -/
theorem exists_shape {i : ℕ} {v : Validator} (hv : vals.validators[i]? = some v) :
    ∃ v', vals'.validators[i]? = some v' ∧ v'.pubKey = v.pubKey ∧
      v'.votingPower = v.votingPower := by
  have hshape := congrArg (·[i]?) h.shape
  simp only [getElem?_map, hv, Option.map_some] at hshape
  obtain ⟨v', hv', heq⟩ := Option.map_eq_some_iff.mp hshape
  exact ⟨v', hv', congrArg (·.2.1) heq, congrArg (·.2.2) heq⟩

theorem exists_shape' {i : ℕ} {v' : Validator} (hv' : vals'.validators[i]? = some v') :
    ∃ v, vals.validators[i]? = some v ∧ v.pubKey = v'.pubKey := by
  have hshape := congrArg (·[i]?) h.shape
  simp only [getElem?_map, hv', Option.map_some] at hshape
  obtain ⟨v, hv, heq⟩ := Option.map_eq_some_iff.mp hshape.symm
  exact ⟨v, hv, congrArg (·.2.1) heq⟩

theorem length_eq : vals'.validators.length = vals.validators.length := by
  simpa using congrArg length h.shape

/-! ### The median time -/

theorem getByAddress (address : Bytes) :
    (vals'.getByAddress address).map (fun p => p.2.votingPower) =
      (vals.getByAddress address).map (fun p => p.2.votingPower) := by
  have hshape := congrArg (Option.map fun s => s.2.2) (getByAddress_of_shape h.shape address)
  rw [Option.map_map, Option.map_map] at hshape
  exact hshape

theorem medianTime (commit : Commit) : commit.medianTime vals' = commit.medianTime vals := by
  have htimes : commit.weightedTimes vals' = commit.weightedTimes vals := by
    refine map_congr_left fun sig _ => ?_
    have hpower := congrArg (Option.map fun w => WeightedTime.mk sig.timestamp w)
      (h.getByAddress sig.validatorAddress)
    rw [Option.map_map, Option.map_map] at hpower
    exact congrArg (fun x => if sig.blockIDFlag = .absent then none else x) hpower
  unfold Commit.medianTime
  rw [htimes]

/-! ### Verification -/

/-- Whether signatures are verified in a batch. -/
theorem shouldBatchVerify (commit : Commit) :
    shouldBatchVerify vals' commit = shouldBatchVerify vals commit := by
  obtain ⟨m, hm, hp⟩ := h.proposer
  obtain ⟨m', hm', hp'⟩ := h.proposer'
  have hkeys : (supportsBatchVerifier m'.pubKey && vals'.allKeysHaveSameType) =
      (supportsBatchVerifier m.pubKey && vals.allKeysHaveSameType) := by
    rw [h.sameType]
    cases hsame : vals.allKeysHaveSameType with
    | false => rw [Bool.and_false, Bool.and_false]
    | true =>
      obtain ⟨i, hi⟩ := getElem?_of_mem hm'
      obtain ⟨v, hv, hkey⟩ := h.exists_shape' hi
      have htype : v.keyType = m.keyType := h.keyTypes hsame v (mem_of_getElem? hv) m hm
      rw [← hkey, supportsBatchVerifier_eq, supportsBatchVerifier_eq, htype]
  unfold Types.shouldBatchVerify
  rw [proposerPubKey_of_some hm hp, proposerPubKey_of_some hm' hp']
  split_ifs
  · rfl
  · exact congrArg Except.ok hkeys

variable {crypto : Crypto} {c : Check}

variable {idx : ℕ} {seenVals : ℕ → Option ℕ}

section

variable (hc : c.vals = vals) (hindex : c.lookUpByIndex = true)

include hc hindex

theorem signer {sig : CommitSig} {signer : Signer} (hs : c.signer seenVals idx sig = .ok signer) :
    ∃ val val', signer = .found idx val seenVals ∧
      Check.signer { c with vals := vals' } seenVals idx sig = .ok (.found idx val' seenVals) ∧
      val'.pubKey = val.pubKey ∧ ∀ tallied,
        Check.tally { c with vals := vals' } tallied sig val' = c.tally tallied sig val := by
  unfold Check.signer at hs ⊢
  rw [if_pos hindex, hc] at hs
  rw [if_pos hindex]
  split at hs
  · cases hs
  · rename_i val hval
    obtain ⟨val', hval', hkey, hpower⟩ := h.exists_shape hval
    rw [hval']
    refine ⟨val, val', (Except.ok.inj hs).symm, rfl, hkey, fun tallied => ?_⟩
    unfold tally
    rw [hpower]

/-- The loop of `verifyCommitSingle` looks at keys and powers. -/
theorem singleLoop {sigs : List CommitSig} {tallied : ℤ}
    (hloop : c.singleLoop crypto idx sigs tallied seenVals = .ok none) :
    singleLoop { c with vals := vals' } crypto idx sigs tallied seenVals = .ok none := by
  induction sigs generalizing idx tallied seenVals with
  | nil => exact hloop
  | cons sig sigs ih =>
    unfold singleLoop at hloop ⊢
    dsimp only
    by_cases hignore : c.ignoreSig sig = true
    · rw [if_pos hignore] at hloop ⊢
      exact ih hloop
    · rw [if_neg hignore] at hloop ⊢
      by_cases hbasic : sig.validateBasic = false
      · rw [if_pos hbasic] at hloop
        cases hloop
      · rw [if_neg hbasic] at hloop ⊢
        obtain ⟨signer, hsigner, hloop⟩ := ok_of_bind hloop
        obtain ⟨val, val', rfl, hsigner', hkey, htally⟩ := h.signer hc hindex hsigner
        rw [bind_of_ok hsigner']
        dsimp only at hloop ⊢
        rw [hkey]
        split at hloop
        · cases hloop
        · obtain ⟨bytes, hbytes, hloop⟩ := ok_of_bind hloop
          rw [bind_of_ok hbytes, htally]
          split at hloop
          · cases hloop
          rename_i hverify
          rw [if_neg hverify]
          split at hloop
          · rename_i hstops
            exact if_pos hstops
          · rename_i hstops
            exact (if_neg hstops).trans (ih hloop)

/-- So does that of `verifyCommitBatch`. -/
theorem batchLoop {sigs : List CommitSig} {b : Batched} {r : Except CommitError Batched}
    (hloop : c.batchLoop crypto idx sigs b seenVals = .ok r) :
    batchLoop { c with vals := vals' } crypto idx sigs b seenVals = .ok r := by
  induction sigs generalizing idx b seenVals with
  | nil => exact hloop
  | cons sig sigs ih =>
    unfold batchLoop at hloop ⊢
    dsimp only
    by_cases hignore : c.ignoreSig sig = true
    · rw [if_pos hignore] at hloop ⊢
      exact ih hloop
    · rw [if_neg hignore] at hloop ⊢
      obtain ⟨signer, hsigner, hloop⟩ := ok_of_bind hloop
      obtain ⟨val, val', rfl, hsigner', hkey, htally⟩ := h.signer hc hindex hsigner
      rw [bind_of_ok hsigner']
      obtain ⟨bytes, hbytes, hloop⟩ := ok_of_bind hloop
      dsimp only
      rw [bind_of_ok hbytes, hkey, htally]
      split at hloop
      · exact hloop
      · dsimp only at hloop ⊢
        split at hloop
        · rename_i hstops
          exact (if_pos hstops).trans hloop
        · rename_i hstops
          exact (if_neg hstops).trans (ih hloop)

end

theorem getTotalVotingPower : vals'.getTotalVotingPower = vals.getTotalVotingPower :=
  getTotalVotingPower_of_shape h.shape h.total

theorem verifyCommitSigs {scheme : Scheme} (hc : c.vals = vals) (hindex : c.lookUpByIndex = true)
    (hv : verifyCommitSigs scheme c = .ok none) :
    Types.verifyCommitSigs scheme { c with vals := vals' } = .ok none := by
  obtain ⟨batch, hbatch, hv⟩ := ok_of_bind hv
  subst hc
  have hbatch' := (h.shouldBatchVerify c.commit).trans hbatch
  unfold Types.verifyCommitSigs
  rw [bind_of_ok hbatch']
  cases batch with
  | false => exact h.singleLoop rfl hindex hv
  | true =>
    obtain ⟨pubKey, hkey, hnot, -⟩ := of_shouldBatchVerify hbatch
    obtain ⟨pubKey', hkey', hnot', -⟩ := of_shouldBatchVerify hbatch'
    change verifyCommitBatch scheme c = .ok none at hv
    show verifyCommitBatch scheme { c with vals := vals' } = .ok none
    unfold verifyCommitBatch at hv ⊢
    rw [bind_of_ok hkey, if_neg hnot] at hv
    rw [bind_of_ok hkey', if_neg hnot']
    obtain ⟨r, hr, hv⟩ := ok_of_bind hv
    rw [bind_of_ok (h.batchLoop rfl hindex hr)]
    exact hv

/-- **A commit that is valid** for one of the sets is valid for the other. -/
theorem verifyCommit {scheme : Scheme} {chainID : String} {blockID : BlockID} {height : ℤ}
    {commit : Commit} (hv : verifyCommit scheme chainID vals blockID height commit = .ok none) :
    Types.verifyCommit scheme chainID vals' blockID height commit = .ok none := by
  unfold Types.verifyCommit verifyTwoThirds at hv ⊢
  have hbasic : verifyBasicValsAndCommit vals' commit height blockID =
      verifyBasicValsAndCommit vals commit height blockID := by
    unfold verifyBasicValsAndCommit
    rw [h.length_eq]
  rw [hbasic]
  split at hv
  · cases hv
  · obtain ⟨total, htotal, hv⟩ := ok_of_bind hv
    rw [bind_of_ok (h.getTotalVotingPower.trans htotal)]
    exact h.verifyCommitSigs rfl rfl hv

end Alike

end CometBFT.Types
