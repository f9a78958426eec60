import CometBFT.State.Validation
import CometBFT.Types.Completeness
import CometBFT.Types.Evidence

/-!
# The verification of evidence

The model of `internal/evidence/verify.go`. Evidence is checked against what a full node has: the
headers and commits of its block store and the validators of its state store. Of both stores this
module has what is read.

Evidence of an attack on a light client has to name the validators that are to blame. The commit of the
conflicting block is verified by index for the validators of that block, and for those of the common
height by the address beside each signature.
-/

namespace CometBFT.Evpool

open CometBFT.Types List
open Sm (lift)

/-- The errors of the verification. -/
inductive VerifyError where
  | noHeaderAtHeight (height : ℤ)
  | noCommitAtHeight (height : ℤ)
  | differentTime (evidence block : Time)
  | tooOld (height : ℤ) (time : Time) (minHeight : ℤ) (notOlderThan : Time)
  | loadValidators (e : Sm.Error)
  | latestBeforeConflicting (latest conflicting : Time)
  | skippingVerification (e : CommitError)
  | notCorrectlyDerived
  | invalidCommit (e : CommitError)
  | votingPowerDoesNotMatch (trusted evidence : ℤ)
  | timeNotViolated (conflicting trusted : Time)
  | sameHash (hash : Bytes)
  | expectedNil (got : ℕ)
  | wrongCount (expected got : ℕ)
  | unexpectedAddress (expected got : Bytes)
  | unexpectedPower (expected got : ℤ)
  | addressNotValidatorAtHeight (address : Bytes) (height : ℤ)
  | hrtMismatch (voteA voteB : Vote)
  | validatorAddressesDoNotMatch (a b : Bytes)
  | sameBlockIDs (blockID : BlockID)
  | addressDoesNotMatchPubKey (address : Bytes) (pubKey : PubKey)
  | invalidSignatureA
  | invalidSignatureB
deriving DecidableEq, Repr

/-- `light.DefaultTrustLevel`. -/
def defaultTrustLevel : Fraction := ⟨1, 3⟩

/-- A nil pointer is dereferenced. -/
def nilPointer {α : Type} : Except Failure α :=
  .error (.panic nilDereference)

/-! ### Attacks on light clients -/

/-- The loop of `validateABCIEvidence`, over the validators that were found and those listed. -/
def checkListed : List (Option Validator) → List (Option Validator) →
    Except Failure (Option VerifyError)
  | some val :: found, some got :: listed =>
    if got.address ≠ val.address then .ok (some (.unexpectedAddress val.address got.address))
    else if got.votingPower ≠ val.votingPower then
      .ok (some (.unexpectedPower val.votingPower got.votingPower))
    else checkListed found listed
  | [], _ => .ok none
  -- one of the entries is nil; the lists have the same length
  | _, _ => nilPointer

/-- `validateABCIEvidence` with the validators that were found. -/
def compareListed (found : List (Option Validator)) (listed : Option (List (Option Validator))) :
    Except Failure (Option VerifyError) :=
  if found = [] ∧ listed.isSome then .ok (some (.expectedNil (listed.getD []).length))
  else if found.length ≠ (listed.getD []).length then
    .ok (some (.wrongCount found.length (listed.getD []).length))
  else checkListed found (listed.getD [])

def validateABCIEvidence (ev : LightClientAttackEvidence) (commonVals : ValidatorSet)
    (trustedHeader : SignedHeader) : Except Failure (Option VerifyError) := do
  let valsTotal ← commonVals.getTotalVotingPower
  if ev.totalVotingPower ≠ valsTotal then
    return some (.votingPowerDoesNotMatch valsTotal ev.totalVotingPower)
  else do
    compareListed (← ev.getByzantineValidators commonVals trustedHeader) ev.byzantineValidators

section

variable (p : Primitives) (e : LightClientAttackEvidence) (commonHeader trustedHeader : SignedHeader)
  (commonVals : ValidatorSet)

/-- The single jump from the common header, or that the header is as it would be derived. -/
def verifyDerived : Except Failure (Option VerifyError) :=
  if commonHeader.height ≠ e.conflictingBlock.height then do
    let err ← verifyCommitLightTrustingAllSignatures p.toScheme trustedHeader.chainID commonVals
      e.conflictingBlock.commit defaultTrustLevel
    return err.map .skippingVerification
  else .ok (if e.conflictingHeaderIsInvalid trustedHeader.toHeader then some .notCorrectlyDerived
    else none)

/-- The commit of the conflicting block. -/
def verifyConflictingCommit : Except Failure (Option VerifyError) := do
  let err ← verifyCommitLightAllSignatures p.toScheme trustedHeader.chainID
    e.conflictingBlock.validatorSet e.conflictingBlock.commit.blockID e.conflictingBlock.height
    e.conflictingBlock.commit
  return err.map .invalidCommit

/-- The total power, the time and the hash. -/
def verifyHeaders : Except Failure (Option VerifyError) := do
  let valsTotal ← commonVals.getTotalVotingPower
  if e.totalVotingPower ≠ valsTotal then
    return some (.votingPowerDoesNotMatch valsTotal e.totalVotingPower)
  else if trustedHeader.height < e.conflictingBlock.height ∧
      trustedHeader.time < e.conflictingBlock.time then
    return some (.timeNotViolated e.conflictingBlock.time trustedHeader.time)
  else if trustedHeader.toHeader.hash p = e.conflictingBlock.hash p then
    return some (.sameHash (trustedHeader.toHeader.hash p))
  else return none

/-- One check, and then another. -/
def andThen (a b : Except Failure (Option VerifyError)) : Except Failure (Option VerifyError) := do
  match ← a with
  | some err => return some err
  | none => b

/-- What `VerifyLightClientAttack` does before it turns to the validators. -/
def verifyConflictingBlock : Except Failure (Option VerifyError) :=
  andThen (verifyDerived p e commonHeader trustedHeader commonVals)
    (andThen (verifyConflictingCommit p e trustedHeader)
      (verifyHeaders p e trustedHeader commonVals))

def verifyLightClientAttack : Except Failure (Option VerifyError) :=
  andThen (verifyConflictingBlock p e commonHeader trustedHeader commonVals)
    (validateABCIEvidence e commonVals trustedHeader)

end

/-! ### Duplicate votes -/

/-- The signatures of the two votes. -/
def verifyVotes (crypto : Crypto) (chainID : String) (pubKey : PubKey) (voteA voteB : Vote) :
    Except Failure (Option VerifyError) := do
  let bytesA ← crypto.voteSignBytes chainID voteA
  if crypto.verifySignature pubKey bytesA voteA.signature = false then return some .invalidSignatureA
  else do
    let bytesB ← crypto.voteSignBytes chainID voteB
    if crypto.verifySignature pubKey bytesB voteB.signature = false then
      return some .invalidSignatureB
    else return none

/-- The checks of the powers, and then of the signatures. -/
def verifyPowers (crypto : Crypto) (e : DuplicateVoteEvidence) (voteA voteB : Vote)
    (chainID : String) (valSet : ValidatorSet) (val : Validator) (pubKey : PubKey) :
    Except Failure (Option VerifyError) :=
  if val.votingPower ≠ e.validatorPower then
    .ok (some (.votingPowerDoesNotMatch val.votingPower e.validatorPower))
  else do
    let total ← valSet.getTotalVotingPower
    if total ≠ e.totalVotingPower then
      return some (.votingPowerDoesNotMatch total e.totalVotingPower)
    else verifyVotes crypto chainID pubKey voteA voteB

def verifyDuplicateVote (crypto : Crypto) (e : DuplicateVoteEvidence) (chainID : String)
    (valSet : ValidatorSet) : Except Failure (Option VerifyError) :=
  match e.voteA, e.voteB with
  | some voteA, some voteB =>
    match valSet.getByAddress voteA.validatorAddress with
    | none => .ok (some (.addressNotValidatorAtHeight voteA.validatorAddress voteA.height))
    | some (_, val) =>
      if voteA.height ≠ voteB.height ∨ voteA.round ≠ voteB.round ∨ voteA.type ≠ voteB.type then
        .ok (some (.hrtMismatch voteA voteB))
      else if voteA.validatorAddress ≠ voteB.validatorAddress then
        .ok (some (.validatorAddressesDoNotMatch voteA.validatorAddress voteB.validatorAddress))
      else if voteA.blockID = voteB.blockID then .ok (some (.sameBlockIDs voteA.blockID))
      else match val.pubKey with
      | none => nilPointer
      | some pubKey =>
        if crypto.address pubKey ≠ voteA.validatorAddress then
          .ok (some (.addressDoesNotMatchPubKey voteA.validatorAddress pubKey))
        else verifyPowers crypto e voteA voteB chainID valSet val pubKey
  | _, _ => nilPointer

/-! ### Evidence and the stores -/

/-- What is read of the block store and of the state store. -/
structure Stores where
  /-- `LoadBlockMeta`. -/
  header : ℤ → Option Header
  /-- `LoadBlockCommit`. -/
  commit : ℤ → Option Commit
  /-- `Height` of the block store. -/
  height : ℤ
  /-- `LoadValidators`. -/
  validators : ℤ → Except Sm.Fault ValidatorSet

/-- `time.Sub`, which stops at the largest and at the smallest duration. -/
def timeSub (a b : Time) : ℤ := max minInt64 (min maxInt64 (a - b))

def isEvidenceExpired (heightNow : ℤ) (timeNow : Time) (heightEv : ℤ) (timeEv : Time)
    (params : EvidenceParams) : Bool :=
  params.maxAgeDuration < timeSub timeNow timeEv ∧
    params.maxAgeNumBlocks < wrap64 (heightNow - heightEv)

def getSignedHeader (stores : Stores) (height : ℤ) : Except VerifyError SignedHeader :=
  match stores.header height with
  | none => .error (.noHeaderAtHeight height)
  | some header =>
    match stores.commit height with
    | none => .error (.noCommitAtHeight height)
    | some commit => .ok ⟨header, commit⟩

/-- The header that the conflicting one is compared with: that of its height, or the latest. -/
def getTrustedHeader (stores : Stores) (ev : LightClientAttackEvidence) (commonHeader : SignedHeader) :
    Except VerifyError SignedHeader :=
  if ev.commonHeight = ev.conflictingBlock.height then .ok commonHeader
  else match getSignedHeader stores ev.conflictingBlock.height with
  | .ok trustedHeader => .ok trustedHeader
  | .error _ =>
    match getSignedHeader stores stores.height with
    | .error err => .error err
    | .ok trustedHeader =>
      if trustedHeader.time < ev.conflictingBlock.time then
        .error (.latestBeforeConflicting trustedHeader.time ev.conflictingBlock.time)
      else .ok trustedHeader

/-- `Evidence.Height`. -/
def evidenceHeight : Evidence → Except Failure ℤ
  | .duplicateVote dve =>
    match dve.voteA with
    | none => nilPointer
    | some voteA => .ok voteA.height
  | .lightClientAttack l => .ok l.commonHeight

theorem evidenceHeight_duplicateVote {dve : DuplicateVoteEvidence} {height : ℤ} :
    evidenceHeight (.duplicateVote dve) = .ok height ↔
      ∃ voteA, dve.voteA = some voteA ∧ voteA.height = height := by
  show (match dve.voteA with | none => nilPointer | some voteA => .ok voteA.height) = _ ↔ _
  cases dve.voteA with
  | none => exact ⟨nofun, nofun⟩
  | some voteA =>
    refine ⟨fun h => ⟨voteA, rfl, Except.ok.inj h⟩, ?_⟩
    rintro ⟨vote, hvote, rfl⟩
    cases hvote
    rfl

/-- `Evidence.Time`. -/
def evidenceTime : Evidence → Time
  | .duplicateVote dve => dve.timestamp
  | .lightClientAttack l => l.timestamp

/-- The validators of a height, for a check. -/
def withValidators (stores : Stores) (height : ℤ)
    (check : ValidatorSet → Except Failure (Option VerifyError)) :
    Except Sm.Fault (Option VerifyError) :=
  match stores.validators height with
  | .error (.err err) => .ok (some (.loadValidators err))
  | .error (.panic text) => .error (.panic text)
  | .ok valSet => lift (check valSet)

/-- The part of `verify` that depends on the kind of the evidence. -/
def verifyKind (p : Primitives) (stores : Stores) (chainID : String) :
    Evidence → Except Sm.Fault (Option VerifyError)
  | .duplicateVote dve => do
    withValidators stores (← lift (evidenceHeight (.duplicateVote dve)))
      (verifyDuplicateVote p.toCrypto dve chainID)
  | .lightClientAttack l =>
    match getSignedHeader stores l.commonHeight with
    | .error err => .ok (some err)
    | .ok commonHeader => withValidators stores l.commonHeight fun commonVals =>
      match getTrustedHeader stores l commonHeader with
      | .error err => .ok (some err)
      | .ok trustedHeader => verifyLightClientAttack p l commonHeader trustedHeader commonVals

/-- `verify`, in the state that the pool has. -/
def verify (p : Primitives) (stores : Stores) (state : Sm.State) (evidence : Evidence) :
    Except Sm.Fault (Option VerifyError) := do
  let height ← lift (evidenceHeight evidence)
  match stores.header height with
  | none => return some (.noHeaderAtHeight state.lastBlockHeight)
  | some header =>
    if evidenceTime evidence ≠ header.time then
      return some (.differentTime (evidenceTime evidence) header.time)
    else if isEvidenceExpired state.lastBlockHeight state.lastBlockTime height header.time
        state.consensusParams.evidence then
      return some (.tooOld height header.time
        (state.lastBlockHeight - state.consensusParams.evidence.maxAgeNumBlocks)
        (state.lastBlockTime + state.consensusParams.evidence.maxAgeDuration))
    else verifyKind p stores state.chainID evidence

/-! ### A hash of headers -/

open Sm (keyOf validatorOf twoVals)

/-- A hash of headers that tells times apart. -/
def attackPrimitives : Primitives where
  toScheme := pairedScheme
  sum bytes := bytes
  hashHeader h := some (UInt8.ofNat h.time.toNat :: replicate 31 0)
  hashValidators _ := replicate 32 3

end CometBFT.Evpool
