import CometBFT.Types.Commit

/-!
# Commit verification

The model of `types/validation.go` and of `light.ValidateTrustLevel`. Five functions check that enough
validators signed a commit. They share two loops: one checks each signature in its turn, the other
collects them for a batch. Signatures are looked up by their index, or by the address that stands
beside them.

Checking a batch is a parameter, `Scheme.verifyBatch`; `Scheme.Faithful` says that a batch passes if
each of its signatures does. The power that is needed is computed in 64 bits from a fraction of
unsigned numbers, so that a large denominator becomes a negative one.

## Main results

* `singleLoop_iff`, `batchLoop_iff` — what the two loops check
* `Passes.sound` — what they have counted
* `verifyCommitSigs_sound` — signers with more than the power needed, whichever loop is used
* `commit_verification_sound` — distinct signers with more than 2/3 of the power, or more than the
  trust level, if validators listed twice do not make the difference and 64 bits do not either
* `trusted_without_signature` — a trust level of 1/3 that a commit without signatures meets
-/

namespace CometBFT.Types

open Function Finset ValidatorSet Validators

/-! ### Signature schemes -/

structure BatchEntry where
  pubKey : PubKey
  msg : Bytes
  signature : Bytes
deriving DecidableEq, Repr

/-- Signatures, and the check of many at once. -/
structure Scheme extends Crypto where
  /-- `BatchVerifier.Verify` after the entries were added: whether all are valid, and which. -/
  verifyBatch : List BatchEntry → Bool × List Bool

/-- A batch passes exactly if each signature is valid. -/
def Scheme.Faithful (scheme : Scheme) : Prop :=
  ∀ entries, entries ≠ [] → ((scheme.verifyBatch entries).1 = true ↔
    ∀ e ∈ entries, scheme.verifySignature e.pubKey e.msg e.signature = true)

/-- `ed25519.KeyType`, the only one that can be checked in batches. -/
def ed25519KeyType : String := "ed25519"

/-- `keytypes.IsSupported`, without the optional BLS keys. -/
def isSupported (keyType : String) : Bool := keyType = ed25519KeyType ∨ keyType = "secp256k1"

def supportsBatchVerifier (pk : Option PubKey) : Bool :=
  match pk with
  | none => false
  | some pk => pk.type = ed25519KeyType

/-- `Validator.ValidateBasic`. -/
def Validator.validateBasic (crypto : Crypto) (v : Validator) : Bool :=
  match v.pubKey with
  | none => false
  | some pubKey => 0 ≤ v.votingPower ∧ v.address = crypto.address pubKey ∧ isSupported pubKey.type

/-- `ValidatorSet.ValidateBasic`. -/
def ValidatorSet.validateBasic (crypto : Crypto) (vals : ValidatorSet) : Bool :=
  match vals.proposer with
  | none => false
  | some proposer =>
    vals.validators ≠ [] ∧ (∀ val ∈ vals.validators, val.validateBasic crypto = true) ∧
      proposer.validateBasic crypto = true ∧ hasAddress vals.validators proposer.address = true

/-- The total power is a cache: not computed yet, or computed from the validators. -/
def ValidatorSet.Cached (vals : ValidatorSet) : Prop :=
  vals.totalVotingPower = 0 ∨ updateTotalVotingPower vals.validators = .ok vals.totalVotingPower

instance (vals : ValidatorSet) : Decidable vals.Cached := inferInstanceAs (Decidable (_ ∨ _))

inductive CommitError where
  | invalidCommitSignatures (expected actual : ℕ)
  | invalidCommitHeight (expected actual : ℤ)
  | wrongBlockID (want got : BlockID)
  | zeroDenominator
  | votingPowerNeededOverflow
  | unsupportedBatch
  | invalidSignatures (idx : ℕ)
  | doubleVote (val : Validator) (firstIndex secondIndex : ℕ)
  | nilPubKey (val : Validator) (idx : ℕ)
  | notEd25519Key
  | invalidKeyLen (got : ℕ)
  | invalidSignatureLen
  | wrongSignature (idx : ℕ)
  | notEnoughVotingPowerSigned (got needed : ℤ)
  | batchBug
deriving DecidableEq, Repr

/-! ### The two loops -/

/-- The arguments of `verifyCommitBatch` and `verifyCommitSingle`. -/
structure Check where
  chainID : String
  vals : ValidatorSet
  commit : Commit
  votingPowerNeeded : ℤ
  ignoreSig : CommitSig → Bool
  countSig : CommitSig → Bool
  countAllSignatures : Bool
  lookUpByIndex : Bool

/-- Whose signature it is, as the loops find out. -/
inductive Signer where
  | unknown
  | doubleVote (val : Validator) (firstIndex : ℕ)
  | found (valIdx : ℕ) (val : Validator) (seenVals : ℕ → Option ℕ)

namespace Check

variable (c : Check)

def signer (seenVals : ℕ → Option ℕ) (idx : ℕ) (commitSig : CommitSig) : Except Failure Signer :=
  if c.lookUpByIndex then
    match c.vals.validators[idx]? with
    | none => .error (.panic "index out of range")
    | some val => .ok (.found idx val seenVals)
  else
    match c.vals.getByAddress commitSig.validatorAddress with
    | none => .ok .unknown
    | some (valIdx, val) =>
      match seenVals valIdx with
      | some firstIndex => .ok (.doubleVote val firstIndex)
      | none => .ok (.found valIdx val (update seenVals valIdx (some idx)))

/-- `talliedVotingPower` after a signature. -/
def tally (talliedVotingPower : ℤ) (commitSig : CommitSig) (val : Validator) : ℤ :=
  if c.countSig commitSig then wrap64 (talliedVotingPower + val.votingPower)
  else talliedVotingPower

/-- Whether the loops stop after this signature. -/
def stops (talliedVotingPower : ℤ) : Bool :=
  !c.countAllSignatures && c.votingPowerNeeded < talliedVotingPower

/-- The loop of `verifyCommitSingle` over the signatures from `idx` on. -/
def singleLoop (crypto : Crypto) :
    ℕ → List CommitSig → ℤ → (ℕ → Option ℕ) → Except Failure (Option CommitError)
  | _, [], tallied, _ =>
    .ok (if tallied ≤ c.votingPowerNeeded then
      some (.notEnoughVotingPowerSigned tallied c.votingPowerNeeded) else none)
  | idx, commitSig :: rest, tallied, seenVals =>
    if c.ignoreSig commitSig then singleLoop crypto (idx + 1) rest tallied seenVals
    else if commitSig.validateBasic = false then .ok (some (.invalidSignatures idx))
    else do
      match ← c.signer seenVals idx commitSig with
      | .unknown => singleLoop crypto (idx + 1) rest tallied seenVals
      | .doubleVote val firstIndex => .ok (some (.doubleVote val firstIndex idx))
      | .found _ val seenVals =>
        match val.pubKey with
        | none => .ok (some (.nilPubKey val idx))
        | some pubKey => do
          let voteSignBytes ← c.commit.voteSignBytes crypto c.chainID idx
          if crypto.verifySignature pubKey voteSignBytes commitSig.signature = false then
            .ok (some (.wrongSignature idx))
          else if c.stops (c.tally tallied commitSig val) then .ok none
          else singleLoop crypto (idx + 1) rest (c.tally tallied commitSig val) seenVals

def verifyCommitSingle (crypto : Crypto) : Except Failure (Option CommitError) :=
  c.singleLoop crypto 0 c.commit.signatures 0 fun _ => none

/-- `BatchVerifier.Add`: why a signature is not taken into a batch, if it is not. -/
def batchAdd (pubKey : Option PubKey) (signature : Bytes) : Except CommitError PubKey :=
  match pubKey with
  | none => .error .notEd25519Key
  | some pubKey =>
    if pubKey.type ≠ ed25519KeyType then .error .notEd25519Key
    else if pubKey.bytes.length ≠ 32 then .error (.invalidKeyLen pubKey.bytes.length)
    else if signature.length ≠ 64 then .error .invalidSignatureLen
    else .ok pubKey

/-- What is batched: `talliedVotingPower`, and the entries with their indices in the commit. -/
structure Batched where
  tallied : ℤ := 0
  entries : List (ℕ × BatchEntry) := []

/-- The loop of `verifyCommitBatch` over the signatures from `idx` on. -/
def batchLoop (crypto : Crypto) :
    ℕ → List CommitSig → Batched → (ℕ → Option ℕ) → Except Failure (Except CommitError Batched)
  | _, [], b, _ => .ok (.ok b)
  | idx, commitSig :: rest, b, seenVals =>
    if c.ignoreSig commitSig then batchLoop crypto (idx + 1) rest b seenVals
    else do
      match ← c.signer seenVals idx commitSig with
      | .unknown => batchLoop crypto (idx + 1) rest b seenVals
      | .doubleVote val firstIndex => .ok (.error (.doubleVote val firstIndex idx))
      | .found _ val seenVals => do
        let voteSignBytes ← c.commit.voteSignBytes crypto c.chainID idx
        match batchAdd val.pubKey commitSig.signature with
        | .error e => .ok (.error e)
        | .ok pubKey =>
          let b : Batched := ⟨c.tally b.tallied commitSig val,
            b.entries ++ [(idx, ⟨pubKey, voteSignBytes, commitSig.signature⟩)]⟩
          if c.stops b.tallied then .ok (.ok b)
          else batchLoop crypto (idx + 1) rest b seenVals

/-- The end of `verifyCommitBatch`. -/
def verifyBatched (scheme : Scheme) (b : Batched) : Option CommitError :=
  if b.tallied ≤ c.votingPowerNeeded then
    some (.notEnoughVotingPowerSigned b.tallied c.votingPowerNeeded)
  else
    match scheme.verifyBatch (b.entries.map Prod.snd) with
    | (true, _) => none
    | (false, validSigs) =>
      match (validSigs.zip b.entries).find? fun p => p.1 = false with
      | some (_, idx, _) => some (.wrongSignature idx)
      | none => some .batchBug

end Check

def batchVerifyThreshold : ℕ := 2

/-- The key of the proposer. -/
def proposerPubKey (vals : ValidatorSet) : Except Failure (Option PubKey) := do
  match ← vals.getProposer with
  | none => .error (.panic nilDereference)
  | some proposer => .ok proposer.pubKey

def shouldBatchVerify (vals : ValidatorSet) (commit : Commit) : Except Failure Bool :=
  if commit.signatures.length < batchVerifyThreshold then .ok false
  else do
    let pubKey ← proposerPubKey vals
    return supportsBatchVerifier pubKey && vals.allKeysHaveSameType

def verifyCommitBatch (scheme : Scheme) (c : Check) : Except Failure (Option CommitError) := do
  let pubKey ← proposerPubKey c.vals
  if supportsBatchVerifier pubKey = false ∨ c.commit.signatures.length < batchVerifyThreshold then
    .ok (some .unsupportedBatch)
  else do
    match ← c.batchLoop scheme.toCrypto 0 c.commit.signatures {} fun _ => none with
    | .error e => .ok (some e)
    | .ok b => .ok (c.verifyBatched scheme b)

/-- The end of the functions below: in a batch if that is supported. -/
def verifyCommitSigs (scheme : Scheme) (c : Check) : Except Failure (Option CommitError) := do
  let batch ← shouldBatchVerify c.vals c.commit
  if batch then verifyCommitBatch scheme c else c.verifyCommitSingle scheme.toCrypto

/-! ### What is exported -/

/-- `verifyBasicValsAndCommit`. -/
def verifyBasicValsAndCommit (vals : ValidatorSet) (commit : Commit) (height : ℤ)
    (blockID : BlockID) : Option CommitError :=
  if vals.validators.length ≠ commit.signatures.length then
    some (.invalidCommitSignatures vals.validators.length commit.signatures.length)
  else if height ≠ commit.height then some (.invalidCommitHeight height commit.height)
  else if blockID ≠ commit.blockID then some (.wrongBlockID blockID commit.blockID)
  else none

section

variable (scheme : Scheme) (chainID : String) (vals : ValidatorSet) (blockID : BlockID) (height : ℤ)
  (commit : Commit)

/-- `VerifyCommit`, and with other signatures ignored `verifyCommitLightInternal`. -/
def verifyTwoThirds (ignoreSig countSig : CommitSig → Bool) (countAllSignatures : Bool) :
    Except Failure (Option CommitError) :=
  match verifyBasicValsAndCommit vals commit height blockID with
  | some e => .ok (some e)
  | none => do
    let total ← vals.getTotalVotingPower
    verifyCommitSigs scheme {
      chainID, vals, commit, ignoreSig, countSig, countAllSignatures
      votingPowerNeeded := (wrap64 (total * 2)).tdiv 3
      lookUpByIndex := true }

def verifyCommit : Except Failure (Option CommitError) :=
  verifyTwoThirds scheme chainID vals blockID height commit
    (fun sig => sig.blockIDFlag = .absent) (fun sig => sig.blockIDFlag = .commit) true

def verifyCommitLightInternal (countAllSignatures : Bool) : Except Failure (Option CommitError) :=
  verifyTwoThirds scheme chainID vals blockID height commit
    (fun sig => sig.blockIDFlag ≠ .commit) (fun _ => true) countAllSignatures

def verifyCommitLight : Except Failure (Option CommitError) :=
  verifyCommitLightInternal scheme chainID vals blockID height commit false

def verifyCommitLightAllSignatures : Except Failure (Option CommitError) :=
  verifyCommitLightInternal scheme chainID vals blockID height commit true

structure Fraction where
  numerator : UInt64
  denominator : UInt64
deriving DecidableEq, Repr

/-- `ValidateTrustLevel`; the product wraps around. -/
def validateTrustLevel (lvl : Fraction) : Bool :=
  ¬(lvl.numerator * 3 < lvl.denominator ∨ lvl.denominator < lvl.numerator ∨ lvl.denominator = 0)

/-- The product, and whether it overflows. -/
def safeMul (a b : ℤ) : ℤ × Bool :=
  if a = 0 ∨ b = 0 then (0, false)
  else
    let absOfB := if b < 0 then wrap64 (-b) else b
    let absOfA := if a < 0 then wrap64 (-a) else a
    if maxInt64.tdiv absOfB < absOfA then (0, true) else (wrap64 (a * b), false)

/-- `int64` of an unsigned number. -/
def toInt64 (x : UInt64) : ℤ := wrap64 x.toNat

variable (trustLevel : Fraction)

def verifyCommitLightTrustingInternal (countAllSignatures : Bool) :
    Except Failure (Option CommitError) :=
  if trustLevel.denominator = 0 then .ok (some .zeroDenominator)
  else do
    let total ← vals.getTotalVotingPower
    match safeMul total (toInt64 trustLevel.numerator) with
    | (_, true) => .ok (some .votingPowerNeededOverflow)
    | (product, false) =>
      verifyCommitSigs scheme {
        chainID, vals, commit, countAllSignatures
        ignoreSig := fun sig => sig.blockIDFlag ≠ .commit
        countSig := fun _ => true
        votingPowerNeeded := product.tdiv (toInt64 trustLevel.denominator)
        lookUpByIndex := false }

def verifyCommitLightTrusting : Except Failure (Option CommitError) :=
  verifyCommitLightTrustingInternal scheme chainID vals commit trustLevel false

def verifyCommitLightTrustingAllSignatures : Except Failure (Option CommitError) :=
  verifyCommitLightTrustingInternal scheme chainID vals commit trustLevel true

end

/-! ### Who signed -/

/-- The signature at an index is valid under the key of a validator. -/
structure Commit.ValidAt (crypto : Crypto) (chainID : String) (commit : Commit) (idx : ℕ)
    (val : Validator) : Prop where
  valid : ∃ pubKey bytes sig, val.pubKey = some pubKey ∧ commit.signatures[idx]? = some sig ∧
    commit.voteSignBytes crypto chainID idx = .ok bytes ∧
    crypto.verifySignature pubKey bytes sig.signature = true

/-- In the commit there is a valid signature of validator `i` of the set over the canonical precommit
for a block. -/
def Commit.SignedBy (crypto : Crypto) (chainID : String) (height round : ℤ) (blockID : BlockID)
    (vals : ValidatorSet) (commit : Commit) (i : ℕ) : Prop :=
  ∃ val pubKey sig canonicalID bytes, vals.validators[i]? = some val ∧ val.pubKey = some pubKey ∧
    sig ∈ commit.signatures ∧ sig.blockIDFlag = .commit ∧
    canonicalizeBlockID blockID = .ok canonicalID ∧
    crypto.encodeVote ⟨.precommit, height, round, canonicalID, sig.timestamp, chainID⟩
      = some bytes ∧
    crypto.verifySignature pubKey bytes sig.signature = true

/-- More than `num / den` of the power signed. -/
def Commit.SignedByMoreThan (crypto : Crypto) (chainID : String) (height round : ℤ)
    (blockID : BlockID) (vals : ValidatorSet) (commit : Commit) (num den : ℤ) : Prop :=
  ∃ A ⊆ vals.indices, num * weight vals.power vals.indices < den * weight vals.power A ∧
    ∀ i ∈ A, commit.SignedBy crypto chainID height round blockID vals i

def ValidatorSet.addressAt (vals : ValidatorSet) (i : ℕ) : Option Bytes :=
  vals.validators[i]?.map Validator.address

/-- Distinct validators with more than `num / den` of the power signed. -/
def Commit.SignedByDistinct (crypto : Crypto) (chainID : String) (height round : ℤ)
    (blockID : BlockID) (vals : ValidatorSet) (commit : Commit) (num den : ℤ) : Prop :=
  ∃ A ⊆ vals.indices, Set.InjOn vals.addressAt A ∧
    num * weight vals.power vals.indices < den * weight vals.power A ∧
    ∀ i ∈ A, commit.SignedBy crypto chainID height round blockID vals i

/-- Whoever has more than two thirds of the power, distinct validators among them do. `ValidateBasic`
lets a set list a validator twice. -/
def ValidatorSet.Discerned (vals : ValidatorSet) : Prop :=
  ∀ A ⊆ vals.indices, 2 * weight vals.power vals.indices < 3 * weight vals.power A →
    ∃ B ⊆ A, Set.InjOn vals.addressAt B ∧
      2 * weight vals.power vals.indices < 3 * weight vals.power B

theorem ValidatorSet.discerned_of_nodup {vals : ValidatorSet}
    (h : (addresses vals.validators).Nodup) : vals.Discerned := by
  refine fun A hA hlt => ⟨A, Subset.rfl, fun i hi j _ heq => ?_, hlt⟩
  refine (List.getElem?_inj ?_ h).mp ?_
  · rw [addresses, List.length_map]
    exact mem_range.mp (hA hi)
  · rw [addresses, List.getElem?_map, List.getElem?_map]
    exact heq

theorem Commit.SignedByMoreThan.distinct {crypto : Crypto} {chainID : String} {height round : ℤ}
    {blockID : BlockID} {vals : ValidatorSet} {commit : Commit} (hvals : vals.Discerned)
    (h : commit.SignedByMoreThan crypto chainID height round blockID vals 2 3) :
    commit.SignedByDistinct crypto chainID height round blockID vals 2 3 := by
  obtain ⟨A, hA, hlt, hsigned⟩ := h
  obtain ⟨B, hB, hdistinct, hlt'⟩ := hvals A hA hlt
  exact ⟨B, hB.trans hA, hdistinct, hlt', fun i hi => hsigned i (hB hi)⟩

variable {i : ℕ} {val : Validator}

theorem Commit.ValidAt.signedBy {crypto : Crypto} {chainID : String} {commit : Commit} {idx : ℕ}
    {sig : CommitSig} {vals : ValidatorSet} (h : commit.ValidAt crypto chainID idx val)
    (hsig : commit.signatures[idx]? = some sig) (hflag : sig.blockIDFlag = .commit)
    (hval : vals.validators[i]? = some val) :
    commit.SignedBy crypto chainID commit.height commit.round commit.blockID vals i := by
  obtain ⟨pubKey, bytes, sig', hkey, hsig', hbytes, hverify⟩ := h.valid
  obtain rfl : sig' = sig := Option.some.inj (hsig'.symm.trans hsig)
  obtain ⟨blockID, canonicalID, hfor, hcanonical, hencode⟩ := voteSignBytes_eq_ok hsig hbytes
  unfold CommitSig.votedFor at hfor
  rw [hflag] at hfor
  cases hfor
  exact ⟨val, pubKey, sig', canonicalID, bytes, hval, hkey, List.mem_of_getElem? hsig, hflag,
    hcanonical, hencode, hverify⟩

namespace Check

variable {c : Check} {scheme : Scheme} {crypto : Crypto} {Checked : ℕ → Validator → Prop} {idx : ℕ}
  {tallied : ℤ} {seenVals seenVals' : ℕ → Option ℕ} {A : Finset ℕ} {commitSig : CommitSig}
  {sigs : List CommitSig} {P : CommitSig → Prop} {V : ℕ → CommitSig → Validator → Prop}

/-- Whom the signature at an index is looked up as. -/
def LookedUp (c : Check) (idx : ℕ) (commitSig : CommitSig) (i : ℕ) (val : Validator) : Prop :=
  if c.lookUpByIndex then i = idx ∧ c.vals.validators[idx]? = some val
  else c.vals.getByAddress commitSig.validatorAddress = some (i, val)

theorem LookedUp.getElem? (h : c.LookedUp idx commitSig i val) :
    c.vals.validators[i]? = some val := by
  unfold LookedUp at h
  split at h
  · exact h.1 ▸ h.2
  · exact (of_getByAddress h).1

theorem not_lookedUp_of_unknown (h : c.signer seenVals idx commitSig = .ok .unknown) (i : ℕ)
    (val : Validator) : ¬c.LookedUp idx commitSig i val := by
  unfold signer at h
  unfold LookedUp
  split at h
  · split at h <;> cases h
  · rename_i hindex
    rw [if_neg hindex]
    split at h
    · rename_i hnone
      exact fun hsome => nomatch hnone.symm.trans hsome
    · split at h <;> cases h

/-- Who is found, is so for the first time. -/
theorem lookedUp_of_found (h : c.signer seenVals idx commitSig = .ok (.found i val seenVals')) :
    c.LookedUp idx commitSig i val ∧
      (c.lookUpByIndex = false → seenVals i = none ∧ seenVals' = update seenVals i (some idx)) := by
  unfold signer at h
  unfold LookedUp
  split at h <;> rename_i hindex
  · rw [if_pos hindex]
    split at h <;> cases h
    exact ⟨⟨rfl, ‹_›⟩, fun hfalse => absurd hindex (by rw [hfalse]; exact Bool.false_ne_true)⟩
  · rw [if_neg hindex]
    repeat' split at h
    all_goals cases h
    exact ⟨‹_›, fun _ => ⟨‹_›, rfl⟩⟩

/-- Two lookups of one signature find the same validator. -/
theorem LookedUp.unique {j : ℕ} {val' : Validator} (h : c.LookedUp idx commitSig i val)
    (h' : c.LookedUp idx commitSig j val') : val = val' := by
  unfold LookedUp at h h'
  split at h
  · rename_i hindex
    rw [if_pos hindex] at h'
    exact Option.some.inj (h.2.symm.trans h'.2)
  · rename_i hindex
    rw [if_neg hindex] at h'
    exact (Prod.mk.inj (Option.some.inj (h.symm.trans h'))).2

/-- The validators `A` were counted among the signatures before `idx`. What was checked of each is a
parameter, since a batch is checked later. -/
structure Counting (c : Check) (Checked : ℕ → Validator → Prop) (idx : ℕ) (tallied : ℤ)
    (seenVals : ℕ → Option ℕ) (A : Finset ℕ) : Prop where
  subset : A ⊆ c.vals.indices
  tallied : tallied = weight c.vals.power A
  counted : ∀ i ∈ A, ∃ k sig val, c.commit.signatures[k]? = some sig ∧ c.ignoreSig sig = false ∧
    c.countSig sig = true ∧ c.LookedUp k sig i val ∧ Checked k val
  seen : ∀ i ∈ A, if c.lookUpByIndex then i < idx else (seenVals i).isSome = true

namespace Counting

theorem empty : Counting c Checked 0 0 seenVals ∅ :=
  ⟨empty_subset _, rfl, fun _ h => absurd h (notMem_empty _),
    fun _ h => absurd h (notMem_empty _)⟩

/-- A signature that is not counted. -/
theorem skip (h : Counting c Checked idx tallied seenVals A)
    (hseen : ∀ i, (seenVals i).isSome = true → (seenVals' i).isSome = true) :
    Counting c Checked (idx + 1) tallied seenVals' A := by
  refine ⟨h.subset, h.tallied, h.counted, fun i hi => ?_⟩
  have := h.seen i hi
  split
  · rename_i hindex
    rw [if_pos hindex] at this
    omega
  · rename_i hindex
    rw [if_neg hindex] at this
    exact hseen i this

/-- The powers are such that no sum of them overflows. -/
structure Sized (vals : ValidatorSet) : Prop where
  nonneg : ∀ i ∈ vals.indices, 0 ≤ vals.power i
  bound : weight vals.power vals.indices ≤ maxTotalVotingPower

/-- A signature of a validator that was not counted yet. -/
theorem take (hsized : Sized c.vals) (h : Counting c Checked idx tallied seenVals A)
    (hsig : c.commit.signatures[idx]? = some commitSig) (hignore : c.ignoreSig commitSig = false)
    (hlook : c.LookedUp idx commitSig i val)
    (hseen : c.lookUpByIndex = false → seenVals i = none ∧ seenVals' = update seenVals i (some idx))
    (hchecked : Checked idx val) :
    ∃ A', Counting c Checked (idx + 1) (c.tally tallied commitSig val) seenVals' A' := by
  have hval := hlook.getElem?
  have hmem : i ∈ c.vals.indices := mem_range.mpr (List.getElem?_eq_some_iff.mp hval).1
  have hkeep : ∀ j ∈ A, if c.lookUpByIndex then j < idx + 1 else (seenVals' j).isSome = true := by
    intro j hj
    have hj := h.seen j hj
    by_cases hindex : c.lookUpByIndex = true
    · rw [if_pos hindex] at hj ⊢
      omega
    · rw [if_neg hindex] at hj ⊢
      rw [(hseen (Bool.not_eq_true _ ▸ hindex)).2]
      by_cases hji : j = i
      · rw [hji, update_self]
        rfl
      · rwa [update_of_ne hji]
  by_cases hcount : c.countSig commitSig = true
  · have hnot : i ∉ A := by
      intro hi
      have hi := h.seen i hi
      by_cases hindex : c.lookUpByIndex = true
      · rw [if_pos hindex] at hi
        unfold LookedUp at hlook
        rw [if_pos hindex] at hlook
        omega
      · rw [if_neg hindex, (hseen (Bool.not_eq_true _ ▸ hindex)).1] at hi
        cases hi
    have hsub : insert i A ⊆ c.vals.indices := insert_subset hmem h.subset
    have hweight : weight c.vals.power (insert i A) = tallied + val.votingPower := by
      rw [weight, sum_insert hnot, power_of_getElem? hval, h.tallied, weight,
        add_comm]
    have hle := (weight_mono hsized.nonneg hsub).trans hsized.bound
    have hge := weight_nonneg fun j hj => hsized.nonneg j (hsub hj)
    refine ⟨insert i A, hsub, ?_, fun j hj => ?_, fun j hj => ?_⟩
    · unfold tally
      rw [if_pos hcount, hweight]
      rw [hweight] at hle hge
      rw [maxTotalVotingPower_eq] at hle
      exact wrap64_of_fits (fits64_of_bounds (by omega))
    · rcases mem_insert.mp hj with rfl | hj
      · exact ⟨idx, commitSig, val, hsig, hignore, hcount, hlook, hchecked⟩
      · exact h.counted j hj
    · rcases mem_insert.mp hj with rfl | hj
      · by_cases hindex : c.lookUpByIndex = true
        · unfold LookedUp at hlook
          rw [if_pos hindex] at hlook ⊢
          omega
        · rw [if_neg hindex, (hseen (Bool.not_eq_true _ ▸ hindex)).2, update_self]
          rfl
      · exact hkeep j hj
  · refine ⟨A, h.subset, ?_, h.counted, hkeep⟩
    unfold tally
    rw [if_neg hcount]
    exact h.tallied

end Counting

/-! ### What the loops have counted -/

/-- Every signature from `idx` on that is not ignored was checked. -/
def AllChecked (c : Check) (Checked : ℕ → Validator → Prop) (idx : ℕ) : Prop :=
  ∀ k sig i val, idx ≤ k → c.commit.signatures[k]? = some sig → c.ignoreSig sig = false →
    c.LookedUp k sig i val → Checked k val

theorem AllChecked.cons (h : c.AllChecked Checked (idx + 1))
    (hsig : c.commit.signatures[idx]? = some commitSig)
    (hidx : c.ignoreSig commitSig = false → ∀ i val, c.LookedUp idx commitSig i val →
      Checked idx val) : c.AllChecked Checked idx := by
  intro k sig i val hk hsig' hignore hlook
  rcases Nat.eq_or_lt_of_le hk with rfl | hlt
  · obtain rfl := Option.some.inj (hsig'.symm.trans hsig)
    exact hidx hignore i val hlook
  · exact h k sig i val hlt hsig' hignore hlook

theorem allChecked_of_length_le (h : c.commit.signatures.length ≤ idx) :
    c.AllChecked Checked idx := by
  intro k sig i val hk hsig
  have := (List.getElem?_eq_some_iff.mp hsig).1
  omega

/-- The next signature, and those after it. -/
theorem drop_cons (h : c.commit.signatures.drop idx = commitSig :: sigs) :
    c.commit.signatures[idx]? = some commitSig ∧ c.commit.signatures.drop (idx + 1) = sigs := by
  refine ⟨?_, ?_⟩
  · rw [← List.head?_drop, h]
    rfl
  · rw [← List.tail_drop, h]
    rfl

/-- Signers with more than the power needed. -/
def Enough (c : Check) (Checked : ℕ → Validator → Prop) : Prop :=
  ∃ A, (∃ idx seenVals, Counting c Checked idx (weight c.vals.power A) seenVals A) ∧
    c.votingPowerNeeded < weight c.vals.power A

theorem Counting.enough (h : Counting c Checked idx tallied seenVals A)
    (hlt : c.votingPowerNeeded < tallied) : c.Enough Checked := by
  refine ⟨A, ⟨idx, seenVals, ?_⟩, ?_⟩
  · rw [← h.tallied]
    exact h
  · rw [← h.tallied]
    exact hlt

theorem stops_eq_true (h : c.stops tallied = true) :
    c.countAllSignatures = false ∧ c.votingPowerNeeded < tallied := by
  obtain ⟨h₁, h₂⟩ := Bool.and_eq_true_iff.mp h
  exact ⟨by simpa using h₁, of_decide_eq_true h₂⟩

/-! ### What the loops check -/

/-- How both loops come to their end without an error, from the signatures at `idx` on. What is
checked of each signature, and of each with its validator, are parameters. -/
def Passes (c : Check) (P : CommitSig → Prop) (V : ℕ → CommitSig → Validator → Prop) :
    ℕ → List CommitSig → ℤ → (ℕ → Option ℕ) → Prop
  | _, [], tallied, _ => c.votingPowerNeeded < tallied
  | idx, commitSig :: rest, tallied, seenVals =>
    if c.ignoreSig commitSig then c.Passes P V (idx + 1) rest tallied seenVals
    else P commitSig ∧
      match c.signer seenVals idx commitSig with
      | .ok .unknown => c.Passes P V (idx + 1) rest tallied seenVals
      | .ok (.found _ val seenVals) => V idx commitSig val ∧
          (c.stops (c.tally tallied commitSig val) = true ∨
            c.Passes P V (idx + 1) rest (c.tally tallied commitSig val) seenVals)
      | _ => False

/-- The signature is valid under the key of a validator, for the vote at an index. -/
def Signed (crypto : Crypto) (c : Check) (idx : ℕ) (commitSig : CommitSig) (val : Validator) : Prop :=
  ∃ pubKey bytes, val.pubKey = some pubKey ∧ c.commit.voteSignBytes crypto c.chainID idx = .ok bytes ∧
    crypto.verifySignature pubKey bytes commitSig.signature = true

theorem signed_iff {pubKey : PubKey} {bytes : Bytes}
    (hkey : val.pubKey = some pubKey)
    (hbytes : c.commit.voteSignBytes crypto c.chainID idx = .ok bytes) :
    c.Signed crypto idx commitSig val ↔
      crypto.verifySignature pubKey bytes commitSig.signature = true := by
  simp [Signed, hkey, hbytes]

theorem not_signed_of_panic {e : Failure}
    (hbytes : c.commit.voteSignBytes crypto c.chainID idx = .error e) :
    ¬c.Signed crypto idx commitSig val := by
  simp [Signed, hbytes]

/-- **One by one**, a signature is valid on its own. -/
theorem singleLoop_iff : c.singleLoop crypto idx sigs tallied seenVals = .ok none ↔
    c.Passes (fun sig => sig.validateBasic = true) (c.Signed crypto) idx sigs tallied seenVals := by
  induction sigs generalizing idx tallied seenVals with
  | nil => simp [singleLoop, Passes]
  | cons commitSig rest ih =>
    unfold singleLoop Passes
    split
    · exact ih
    cases commitSig.validateBasic with
    | false => simp
    | true =>
      rw [if_neg Bool.true_eq_false_eq_False, eq_self, true_and]
      cases c.signer seenVals idx commitSig with
      | error e => exact ⟨nofun, nofun⟩
      | ok s =>
        cases s with
        | unknown => exact ih
        | doubleVote val first => exact ⟨nofun, nofun⟩
        | found i val seen =>
          cases hkey : val.pubKey with
          | none => simp [bind, Except.bind, hkey, Signed]
          | some pubKey =>
            cases hbytes : c.commit.voteSignBytes crypto c.chainID idx with
            | error e => simp [bind, Except.bind, hkey, not_signed_of_panic hbytes]
            | ok bytes =>
              simp only [bind, Except.bind, hkey, signed_iff hkey hbytes, ← ih]
              split_ifs with hverify hstops
              · simp [hverify]
              · simp [hverify, hstops]
              · simp [hverify, hstops]

theorem batchAdd_eq_ok {pubKey : Option PubKey} {signature : Bytes} {key : PubKey}
    (h : batchAdd pubKey signature = .ok key) : pubKey = some key := by
  unfold batchAdd at h
  split at h
  · cases h
  · split_ifs at h
    cases h
    rfl

/-- Every entry of a batch is valid. -/
def Batched.Valid (scheme : Scheme) (b : Batched) : Prop :=
  ∀ e ∈ b.entries, scheme.verifySignature e.2.pubKey e.2.msg e.2.signature = true

/-- A signature that is added to a batch is valid. -/
def Batchable (scheme : Scheme) (c : Check) (idx : ℕ) (sig : CommitSig) (val : Validator) : Prop :=
  c.Signed scheme.toCrypto idx sig val ∧ ∃ key, batchAdd val.pubKey sig.signature = .ok key

variable {b : Batched}

/-- **In a batch**, all signatures that were added are to be valid at the end. -/
theorem batchLoop_iff :
    (∃ b', c.batchLoop scheme.toCrypto idx sigs b seenVals = .ok (.ok b') ∧
        c.votingPowerNeeded < b'.tallied ∧ b'.Valid scheme) ↔
      b.Valid scheme ∧ c.Passes (fun _ => True) (c.Batchable scheme) idx sigs b.tallied seenVals := by
  induction sigs generalizing idx b seenVals with
  | nil => simp [batchLoop, Passes, and_comm]
  | cons commitSig rest ih =>
    unfold batchLoop Passes
    rw [true_and]
    split
    · exact ih
    cases c.signer seenVals idx commitSig with
    | error e => simp [bind, Except.bind]
    | ok s =>
      cases s with
      | unknown => exact ih
      | doubleVote val first => simp [bind, Except.bind]
      | found i val seen =>
        simp only [bind, Except.bind, Batchable]
        cases hbytes : c.commit.voteSignBytes scheme.toCrypto c.chainID idx with
        | error e => simp [not_signed_of_panic hbytes]
        | ok bytes =>
          cases hadd : batchAdd val.pubKey commitSig.signature with
          | error e => simp
          | ok key =>
            have hvalid : ∀ t, Batched.Valid scheme
                ⟨t, b.entries ++ [(idx, ⟨key, bytes, commitSig.signature⟩)]⟩ ↔
                b.Valid scheme ∧ c.Signed scheme.toCrypto idx commitSig val := by
              intro t
              rw [signed_iff (batchAdd_eq_ok hadd) hbytes]
              simp [Batched.Valid, or_imp, forall_and]
            by_cases hstops : c.stops (c.tally b.tallied commitSig val) = true
            · simp [hstops, hvalid, (stops_eq_true hstops).2]
            · simp [hstops, ih, hvalid, and_assoc]

/-- The validators counted on the way are different, and have more than the power needed. -/
theorem Passes.sound (hsized : Counting.Sized c.vals)
    (hV : ∀ {k sig val}, c.commit.signatures[k]? = some sig → V k sig val → Checked k val)
    (hc : Counting c Checked idx tallied seenVals A) (hdrop : c.commit.signatures.drop idx = sigs)
    (h : c.Passes P V idx sigs tallied seenVals) :
    c.Enough Checked ∧ (c.countAllSignatures = true → c.AllChecked Checked idx) := by
  induction sigs generalizing idx tallied seenVals A with
  | nil => exact ⟨hc.enough h, fun _ => allChecked_of_length_le (List.drop_eq_nil_iff.mp hdrop)⟩
  | cons commitSig rest ih =>
    obtain ⟨hsig, hrest⟩ := drop_cons hdrop
    unfold Passes at h
    split at h
    · rename_i hignore
      obtain ⟨henough, hall⟩ := ih (hc.skip fun _ => id) hrest h
      exact ⟨henough, fun hcount => (hall hcount).cons hsig fun hfalse => absurd hignore
        (by rw [hfalse]; exact Bool.false_ne_true)⟩
    rename_i hignore
    rw [Bool.not_eq_true] at hignore
    obtain ⟨-, h⟩ := h
    split at h
    · rename_i hs
      obtain ⟨henough, hall⟩ := ih (hc.skip fun _ => id) hrest h
      exact ⟨henough, fun hcount => (hall hcount).cons hsig fun _ i val hlook =>
        absurd hlook (not_lookedUp_of_unknown hs i val)⟩
    · rename_i i val seen hs
      obtain ⟨hlook, hseen⟩ := lookedUp_of_found hs
      have hchecked := hV hsig h.1
      obtain ⟨A', hc'⟩ := hc.take hsized hsig hignore hlook hseen hchecked
      rcases h.2 with hstops | h
      · obtain ⟨hfalse, hlt⟩ := stops_eq_true hstops
        exact ⟨hc'.enough hlt, fun hcount => nomatch hfalse.symm.trans hcount⟩
      · obtain ⟨henough, hall⟩ := ih hc' hrest h
        exact ⟨henough, fun hcount => (hall hcount).cons hsig fun _ j val' hlook' =>
          hlook.unique hlook' ▸ hchecked⟩
    · exact h.elim

theorem signed_iff_validAt (hsig : c.commit.signatures[idx]? = some commitSig) :
    c.Signed crypto idx commitSig val ↔ c.commit.ValidAt crypto c.chainID idx val := by
  constructor
  · rintro ⟨pubKey, bytes, hkey, hbytes, hverify⟩
    exact ⟨pubKey, bytes, commitSig, hkey, hsig, hbytes, hverify⟩
  · rintro ⟨pubKey, bytes, sig, hkey, hsig', hbytes, hverify⟩
    obtain rfl : sig = commitSig := Option.some.inj (hsig'.symm.trans hsig)
    exact ⟨pubKey, bytes, hkey, hbytes, hverify⟩

theorem verifyBatched_eq_none : c.verifyBatched scheme b = none ↔
    c.votingPowerNeeded < b.tallied ∧ (scheme.verifyBatch (b.entries.map Prod.snd)).1 = true := by
  unfold verifyBatched
  split_ifs with hle
  · exact ⟨nofun, fun h => absurd h.1 (not_lt.mpr hle)⟩
  split
  · rename_i heq
    exact ⟨fun _ => ⟨not_le.mp hle, by rw [heq]⟩, fun _ => rfl⟩
  · rename_i heq
    rw [heq]
    split
    · exact ⟨nofun, nofun⟩
    · exact ⟨nofun, nofun⟩

/-- What a batch that passes says of its entries. -/
theorem Batched.valid_of_verifyBatch (hscheme : scheme.Faithful)
    (h : (scheme.verifyBatch (b.entries.map Prod.snd)).1 = true) : b.Valid scheme := by
  intro e he
  have hmem := List.mem_map_of_mem (f := Prod.snd) he
  exact (hscheme _ (List.ne_nil_of_mem hmem)).mp h _ hmem

end Check

/-- A batch that passes has collected what it was made of without an error. -/
theorem of_verifyCommitBatch {scheme : Scheme} {c : Check}
    (h : verifyCommitBatch scheme c = .ok none) :
    ∃ b, c.batchLoop scheme.toCrypto 0 c.commit.signatures {} (fun _ => none) = .ok (.ok b) ∧
      c.verifyBatched scheme b = none := by
  obtain ⟨pubKey, -, h⟩ := ok_of_bind h
  split_ifs at h
  · cases h
  obtain ⟨b, hb, h⟩ := ok_of_bind h
  cases b with
  | error e => cases h
  | ok b => exact ⟨b, hb, Except.ok.inj h⟩

/-- **Whichever loop is used**, the commit has valid signatures of different validators with more
than the power needed, and if all signatures are to be counted then all are valid. -/
theorem verifyCommitSigs_sound {scheme : Scheme} (hscheme : scheme.Faithful) {c : Check}
    (hsized : Check.Counting.Sized c.vals) (h : verifyCommitSigs scheme c = .ok none) :
    c.Enough (c.commit.ValidAt scheme.toCrypto c.chainID) ∧
      (c.countAllSignatures = true →
        c.AllChecked (c.commit.ValidAt scheme.toCrypto c.chainID) 0) := by
  obtain ⟨batch, -, h⟩ := ok_of_bind h
  cases batch with
  | false =>
    exact (Check.singleLoop_iff.mp h).sound hsized (fun hsig => (Check.signed_iff_validAt hsig).mp) .empty rfl
  | true =>
    obtain ⟨b, hloop, hb⟩ := of_verifyCommitBatch h
    obtain ⟨hlt, hbatch⟩ := Check.verifyBatched_eq_none.mp hb
    have hpasses := (Check.batchLoop_iff.mp
      ⟨b, hloop, hlt, Check.Batched.valid_of_verifyBatch hscheme hbatch⟩).2
    exact hpasses.sound hsized (fun hsig hV => (Check.signed_iff_validAt hsig).mp hV.1) .empty rfl

/-! ### More than the fraction -/

section

variable {scheme : Scheme} {crypto : Crypto} {chainID : String} {vals : ValidatorSet}
  {commit : Commit}

theorem ValidatorSet.votingPower_nonneg (hvals : vals.validateBasic crypto = true) :
    ∀ v ∈ vals.validators, 0 ≤ v.votingPower := by
  unfold validateBasic at hvals
  split at hvals
  · cases hvals
  · intro v hv
    have hv := (of_decide_eq_true hvals).2.1 v hv
    unfold Validator.validateBasic at hv
    split at hv
    · cases hv
    · exact (of_decide_eq_true hv).1

theorem ValidatorSet.power_nonneg_of_validateBasic (hvals : vals.validateBasic crypto = true) :
    ∀ i ∈ vals.indices, 0 ≤ vals.power i := by
  intro i hi
  have hlt := mem_range.mp hi
  rw [power_of_getElem? (List.getElem?_eq_getElem hlt)]
  exact votingPower_nonneg hvals _ (List.getElem_mem hlt)

/-- A set that passes `ValidateBasic`, whose total power is computed without a panic. -/
theorem ValidatorSet.sized_of_validateBasic {total : ℤ}
    (hvals : vals.validateBasic crypto = true) (hcached : vals.Cached)
    (h : vals.getTotalVotingPower = .ok total) :
    Check.Counting.Sized vals ∧ total = weight vals.power vals.indices ∧ 0 ≤ total := by
  have htotal : updateTotalVotingPower vals.validators = .ok total := by
    unfold getTotalVotingPower at h
    split at h
    · exact h
    · rename_i hne
      rw [← h]
      exact hcached.resolve_left hne
  obtain ⟨hsum, hnonneg, hle⟩ := updateTotalVotingPower_spec (votingPower_nonneg hvals) htotal
  rw [← weight_indices] at hsum
  exact ⟨⟨power_nonneg_of_validateBasic hvals, hsum ▸ hle⟩, hsum, hnonneg⟩

/-- The signers that were counted, if only those for the block are. -/
theorem Check.Enough.signedByMoreThan {c : Check} {num den : ℤ}
    (h : c.Enough (c.commit.ValidAt crypto c.chainID))
    (hflag : ∀ sig, c.ignoreSig sig = false → c.countSig sig = true → sig.blockIDFlag = .commit)
    (hneeded : ∀ x, c.votingPowerNeeded < x →
      num * weight c.vals.power c.vals.indices < den * x) :
    c.commit.SignedByMoreThan crypto c.chainID c.commit.height c.commit.round c.commit.blockID
      c.vals num den := by
  obtain ⟨A, ⟨idx, seenVals, hc⟩, hlt⟩ := h
  refine ⟨A, hc.subset, hneeded _ hlt, fun i hi => ?_⟩
  obtain ⟨k, sig, val, hsig, hignore, hcount, hlook, hvalid⟩ := hc.counted i hi
  exact hvalid.signedBy hsig (hflag sig hignore hcount) hlook.getElem?

variable {blockID : BlockID} {height : ℤ} {all : Bool}

theorem verifyBasicValsAndCommit_eq_none
    (h : verifyBasicValsAndCommit vals commit height blockID = none) :
    vals.validators.length = commit.signatures.length ∧ height = commit.height ∧
      blockID = commit.blockID := by
  unfold verifyBasicValsAndCommit at h
  split_ifs at h with h₁ h₂ h₃
  exact ⟨not_not.mp h₁, not_not.mp h₂, not_not.mp h₃⟩

variable {countSig ignoreSig : CommitSig → Bool}

theorem basic_of_verifyTwoThirds
    (h : verifyTwoThirds scheme chainID vals blockID height commit ignoreSig countSig all
      = .ok none) : vals.validators.length = commit.signatures.length ∧ height = commit.height ∧
        blockID = commit.blockID := by
  unfold verifyTwoThirds at h
  split at h
  · cases h
  · exact verifyBasicValsAndCommit_eq_none ‹_›

/-- The power needed, as integers compute it. -/
theorem two_thirds_of_needed {total x : ℤ} (hnonneg : 0 ≤ total) (hle : total ≤ maxTotalVotingPower)
    (hx : (wrap64 (total * 2)).tdiv 3 < x) : 2 * total < 3 * x := by
  rw [maxTotalVotingPower_eq] at hle
  rw [wrap64_of_fits (fits64_of_bounds (by omega)),
    Int.tdiv_eq_ediv_of_nonneg (by omega)] at hx
  omega

/-- What `VerifyCommit` and `VerifyCommitLight` have in common. -/
theorem verifyTwoThirds_sound (hscheme : scheme.Faithful)
    (hvals : vals.validateBasic scheme.toCrypto = true) (hcached : vals.Cached)
    (hflag : ∀ sig, ignoreSig sig = false → countSig sig = true → sig.blockIDFlag = .commit)
    (h : verifyTwoThirds scheme chainID vals blockID height commit ignoreSig countSig all
      = .ok none) :
    commit.SignedByMoreThan scheme.toCrypto chainID height commit.round blockID vals 2 3 ∧
      (all = true → ∀ idx sig val, commit.signatures[idx]? = some sig → ignoreSig sig = false →
        vals.validators[idx]? = some val → commit.ValidAt scheme.toCrypto chainID idx val) := by
  unfold verifyTwoThirds at h
  split at h
  · cases h
  rename_i hbasic
  obtain ⟨-, rfl, rfl⟩ := verifyBasicValsAndCommit_eq_none hbasic
  obtain ⟨total, htotal, h⟩ := ok_of_bind h
  obtain ⟨hsized, hsum, hnonneg⟩ := sized_of_validateBasic hvals hcached htotal
  obtain ⟨henough, hall⟩ := verifyCommitSigs_sound hscheme hsized h
  refine ⟨henough.signedByMoreThan hflag fun x hx => ?_, fun hcount idx sig val hsig hignore hval => ?_⟩
  · show 2 * weight vals.power vals.indices < 3 * x
    rw [← hsum]
    exact two_thirds_of_needed hnonneg (hsum ▸ hsized.bound) hx
  · exact hall hcount idx sig idx val (Nat.zero_le _) hsig hignore ⟨rfl, hval⟩

/-- A product that does not overflow. -/
theorem safeMul_eq {a b p : ℤ} (ha : 0 ≤ a) (hb : 0 ≤ b) (h : safeMul a b = (p, false)) :
    p = a * b := by
  unfold safeMul at h
  split at h
  · rename_i hzero
    obtain ⟨rfl, -⟩ := Prod.mk.inj h
    rcases hzero with rfl | rfl
    · rw [zero_mul]
    · rw [mul_zero]
  · rename_i hzero
    rw [not_or] at hzero
    simp only [if_neg (not_lt.mpr ha), if_neg (not_lt.mpr hb)] at h
    split at h
    · cases h
    · rename_i hle
      obtain ⟨rfl, -⟩ := Prod.mk.inj h
      have hmax : 0 ≤ maxInt64 := by decide
      rw [not_lt, Int.tdiv_eq_ediv_of_nonneg hmax] at hle
      have hprod : a * b ≤ maxInt64 :=
        (mul_le_mul_of_nonneg_right hle hb).trans (Int.ediv_mul_le _ hzero.2)
      have hnonneg := mul_nonneg ha hb
      exact wrap64_of_fits ⟨by unfold minInt64; omega, hprod⟩

theorem toInt64_eq {x : UInt64} (h : (x.toNat : ℤ) ≤ maxInt64) : toInt64 x = x.toNat :=
  wrap64_of_fits ⟨by unfold minInt64; omega, h⟩

/-- Whoever has more than the power that is computed in 64 bits from the trust level has more than the
trust level. -/
def Fraction.Respected (trustLevel : Fraction) (vals : ValidatorSet) : Prop :=
  ∀ product, safeMul (weight vals.power vals.indices) (toInt64 trustLevel.numerator) =
    (product, false) → ∀ A ⊆ vals.indices,
      product.tdiv (toInt64 trustLevel.denominator) < weight vals.power A →
      trustLevel.numerator.toNat * weight vals.power vals.indices <
        trustLevel.denominator.toNat * weight vals.power A

theorem Fraction.respected_of_le {trustLevel : Fraction}
    (hlevel : validateTrustLevel trustLevel = true)
    (hden : (trustLevel.denominator.toNat : ℤ) ≤ maxInt64)
    (hnonneg : 0 ≤ weight vals.power vals.indices) : trustLevel.Respected vals := by
  have hle := of_decide_eq_true hlevel
  rw [not_or, not_or, UInt64.not_lt] at hle
  have hnum : (trustLevel.numerator.toNat : ℤ) ≤ maxInt64 := by
    have := UInt64.le_iff_toNat_le.mp (UInt64.not_lt.mp hle.2.1)
    omega
  have hpos : 0 < (trustLevel.denominator.toNat : ℤ) := by
    have := UInt64.pos_iff_ne_zero.mpr hle.2.2
    have := UInt64.lt_iff_toNat_lt.mp this
    rw [UInt64.toNat_zero] at this
    omega
  intro product hmul A _ hlt
  rw [toInt64_eq hnum] at hmul
  have hproduct := safeMul_eq hnonneg (Int.natCast_nonneg _) hmul
  have hnn : 0 ≤ product := hproduct ▸ mul_nonneg hnonneg (Int.natCast_nonneg _)
  rw [toInt64_eq hden, Int.tdiv_eq_ediv_of_nonneg hnn, Int.ediv_lt_iff_lt_mul hpos, hproduct] at hlt
  rw [mul_comm, mul_comm _ (weight vals.power A)]
  exact hlt

/-- Signers that are looked up by address are distinct. -/
theorem Check.Counting.injOn {c : Check} {Checked : ℕ → Validator → Prop} {idx : ℕ} {tallied : ℤ}
    {seenVals : ℕ → Option ℕ} {A : Finset ℕ} (h : Counting c Checked idx tallied seenVals A)
    (hindex : c.lookUpByIndex = false) : Set.InjOn c.vals.addressAt A := by
  have hfound : ∀ i ∈ A, ∃ address val, c.vals.getByAddress address = some (i, val) ∧
      c.vals.addressAt i = some address := by
    intro i hi
    obtain ⟨k, sig, val, -, -, -, hlook, -⟩ := h.counted i hi
    rw [LookedUp, hindex] at hlook
    obtain ⟨hval, haddress⟩ := of_getByAddress hlook
    exact ⟨_, val, hlook, by rw [addressAt, hval, ← haddress]; rfl⟩
  intro i hi j hj heq
  obtain ⟨a, val, hget, ha⟩ := hfound i hi
  obtain ⟨a', val', hget', ha'⟩ := hfound j hj
  obtain rfl : a = a' := Option.some.inj (ha.symm.trans (heq.trans ha'))
  exact congrArg Prod.fst (Option.some.inj (hget.symm.trans hget'))

theorem verifyCommitLightTrustingInternal_sound (hscheme : scheme.Faithful)
    (hvals : vals.validateBasic scheme.toCrypto = true) (hcached : vals.Cached)
    {trustLevel : Fraction}
    (h : verifyCommitLightTrustingInternal scheme chainID vals commit trustLevel all = .ok none) :
    (trustLevel.Respected vals →
      commit.SignedByDistinct scheme.toCrypto chainID commit.height commit.round commit.blockID vals
        trustLevel.numerator.toNat trustLevel.denominator.toNat) ∧
      (all = true → ∀ idx sig i val, commit.signatures[idx]? = some sig →
        sig.blockIDFlag = .commit → vals.getByAddress sig.validatorAddress = some (i, val) →
        commit.ValidAt scheme.toCrypto chainID idx val) := by
  unfold verifyCommitLightTrustingInternal at h
  split at h
  · cases h
  obtain ⟨total, htotal, h⟩ := ok_of_bind h
  obtain ⟨hsized, rfl, -⟩ := sized_of_validateBasic hvals hcached htotal
  split at h
  · cases h
  rename_i product hmul
  obtain ⟨henough, hall⟩ := verifyCommitSigs_sound hscheme hsized h
  refine ⟨fun hlevel => ?_, fun hcount idx sig i val hsig hflag hlook => ?_⟩
  · obtain ⟨A, ⟨idx, seenVals, hc⟩, hlt⟩ := henough
    refine ⟨A, hc.subset, hc.injOn rfl, hlevel product hmul A hc.subset hlt, fun i hi => ?_⟩
    obtain ⟨k, sig, val, hsig, hignore, -, hlook, hvalid⟩ := hc.counted i hi
    exact hvalid.signedBy hsig (not_not.mp (of_decide_eq_false hignore)) hlook.getElem?
  · exact hall hcount idx sig i val (Nat.zero_le _) hsig (decide_eq_false (not_not.mpr hflag)) hlook

/-- **Commit verification is sound** for every set in which validators listed twice do not make the
difference, and for every trust level that is respected in 64 bits; one is, if its denominator is a
signed 64-bit integer. -/
theorem commit_verification_sound (hscheme : scheme.Faithful)
    (hvals : vals.validateBasic scheme.toCrypto = true) (hcached : vals.Cached) :
    (vals.Discerned →
      (∀ blockID height, verifyCommit scheme chainID vals blockID height commit = .ok none →
        commit.SignedByDistinct scheme.toCrypto chainID height commit.round blockID vals 2 3) ∧
      (∀ blockID height, verifyCommitLight scheme chainID vals blockID height commit = .ok none →
        commit.SignedByDistinct scheme.toCrypto chainID height commit.round blockID vals 2 3) ∧
      ∀ blockID height,
        verifyCommitLightAllSignatures scheme chainID vals blockID height commit = .ok none →
        commit.SignedByDistinct scheme.toCrypto chainID height commit.round blockID vals 2 3) ∧
    (∀ blockID height,
      verifyCommitLightAllSignatures scheme chainID vals blockID height commit = .ok none →
      ∀ idx sig val, commit.signatures[idx]? = some sig → sig.blockIDFlag = .commit →
        vals.validators[idx]? = some val → commit.ValidAt scheme.toCrypto chainID idx val) ∧
    ∀ trustLevel : Fraction,
      (verifyCommitLightTrusting scheme chainID vals commit trustLevel = .ok none →
        (trustLevel.Respected vals →
          commit.SignedByDistinct scheme.toCrypto chainID commit.height commit.round commit.blockID
            vals trustLevel.numerator.toNat trustLevel.denominator.toNat)) ∧
      (verifyCommitLightTrustingAllSignatures scheme chainID vals commit trustLevel = .ok none →
        (trustLevel.Respected vals →
          commit.SignedByDistinct scheme.toCrypto chainID commit.height commit.round commit.blockID
            vals trustLevel.numerator.toNat trustLevel.denominator.toNat) ∧
        ∀ idx sig i val, commit.signatures[idx]? = some sig → sig.blockIDFlag = .commit →
          vals.getByAddress sig.validatorAddress = some (i, val) →
          commit.ValidAt scheme.toCrypto chainID idx val) ∧
      (validateTrustLevel trustLevel = true →
        (trustLevel.denominator.toNat : ℤ) ≤ maxInt64 → trustLevel.Respected vals) := by
  have hlight : ∀ {blockID height all},
      verifyCommitLightInternal scheme chainID vals blockID height commit all = .ok none →
      commit.SignedByMoreThan scheme.toCrypto chainID height commit.round blockID vals 2 3 ∧
        (all = true → ∀ idx sig val, commit.signatures[idx]? = some sig →
          decide (sig.blockIDFlag ≠ .commit) = false → vals.validators[idx]? = some val →
          commit.ValidAt scheme.toCrypto chainID idx val) := fun h =>
    verifyTwoThirds_sound hscheme hvals hcached
      (fun _ hignore _ => not_not.mp (of_decide_eq_false hignore)) h
  refine ⟨fun hdiscerned => ⟨fun blockID height h => ?_, fun blockID height h =>
      (hlight h).1.distinct hdiscerned, fun blockID height h => (hlight h).1.distinct hdiscerned⟩,
    fun blockID height h idx sig val hsig hflag hval => ?_,
    fun trustLevel => ⟨fun h => ?_, fun h => ?_, fun hlevel hden => ?_⟩⟩
  · exact (verifyTwoThirds_sound hscheme hvals hcached
      (fun _ _ hcount => of_decide_eq_true hcount) h).1.distinct hdiscerned
  · exact (hlight h).2 rfl idx sig val hsig (decide_eq_false (not_not.mpr hflag)) hval
  · exact (verifyCommitLightTrustingInternal_sound hscheme hvals hcached h).1
  · obtain ⟨hsigned, hall⟩ := verifyCommitLightTrustingInternal_sound hscheme hvals hcached h
    exact ⟨hsigned, hall rfl⟩
  · exact Fraction.respected_of_le hlevel hden 
      (weight_nonneg (power_nonneg_of_validateBasic hvals))

end

/-! ### One validator -/

/-- A scheme in which every key is its own address and every signature is valid. -/
def plainScheme : Scheme where
  address key := key.bytes
  verifySignature _ _ _ := true
  encodeVote _ := some []
  encodeVoteExtension _ := []
  encodeProposal _ := some []
  verifyBatch entries := (true, entries.map fun _ => true)

theorem plainScheme_faithful : plainScheme.Faithful :=
  fun _ _ => ⟨fun _ _ _ => rfl, fun _ => rfl⟩

def soleKey : PubKey := ⟨ed25519KeyType, List.replicate 20 1⟩

def soleValidator : Validator := ⟨soleKey.bytes, some soleKey, 1, 0⟩

def soleSet : ValidatorSet := ⟨[soleValidator], some soleValidator, 1, true⟩

def someID : BlockID := ⟨List.replicate 32 7, ⟨1, List.replicate 32 8⟩⟩

/-- A commit with the signature of the only validator. -/
def soleCommit : Commit := ⟨5, 0, someID, [⟨.commit, soleKey.bytes, 0, [1]⟩]⟩

/-- A commit without any. -/
def unsignedCommit : Commit := ⟨5, 0, someID, [⟨.absent, [], zeroTime, []⟩]⟩

/-- A third, in numbers of which the denominator is not a signed 64-bit integer. -/
def largeThird : Fraction := ⟨4611686018427387904, 13835058055282163712⟩

/-- The power needed is a third of one, divided by a negative number. -/
theorem trusted_without_signature :
    soleSet.validateBasic plainScheme.toCrypto = true ∧ soleSet.Cached ∧
      unsignedCommit.validateBasic = true ∧ validateTrustLevel largeThird = true ∧
      verifyCommitLightTrusting plainScheme "" soleSet unsignedCommit largeThird = .ok none ∧
      ¬unsignedCommit.SignedByDistinct plainScheme.toCrypto "" 5 0 someID soleSet
        largeThird.numerator.toNat largeThird.denominator.toNat := by
  refine ⟨by decide +kernel, by decide +kernel, by decide +kernel, by decide, by decide +kernel, ?_⟩
  rintro ⟨A, -, -, hlt, hsigned⟩
  have hempty : A = ∅ := by
    refine eq_empty_of_forall_notMem fun i hi => ?_
    obtain ⟨val, pubKey, sig, canonicalID, bytes, -, -, hmem, hflag, -⟩ := hsigned i hi
    rw [List.mem_singleton.mp hmem] at hflag
    cases hflag
  rw [hempty] at hlt
  exact absurd hlt (by decide +kernel)

theorem commit_verification_sound_soleCommit :
    (verifyCommit plainScheme "" soleSet someID 5 soleCommit = .ok none ∧
      verifyCommitLightTrusting plainScheme "" soleSet soleCommit ⟨1, 3⟩ = .ok none) ∧
      soleCommit.SignedByDistinct plainScheme.toCrypto "" 5 0 someID soleSet 2 3 ∧
      soleCommit.SignedByDistinct plainScheme.toCrypto "" 5 0 someID soleSet 1 3 := by
  have h : verifyCommit plainScheme "" soleSet someID 5 soleCommit = .ok none ∧
      verifyCommitLightTrusting plainScheme "" soleSet soleCommit ⟨1, 3⟩ = .ok none := by
    decide +kernel
  obtain ⟨hfull, -, htrusting⟩ := @commit_verification_sound plainScheme "" soleSet soleCommit
    plainScheme_faithful (by decide +kernel) (by decide +kernel)
  obtain ⟨hlevel, -, hrespected⟩ := htrusting ⟨1, 3⟩
  exact ⟨h, (hfull (discerned_of_nodup (List.nodup_singleton _))).1 someID 5 h.1,
    hlevel h.2 (hrespected (by decide) (by decide))⟩

end CometBFT.Types
