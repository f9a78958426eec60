import CometBFT.Types.Params

/-!
# Blocks

The model of `Block`, `Data` and `EvidenceData` (`types/block.go`) and of the two kinds of evidence
(`types/evidence.go`). The Merkle roots of a block's contents, and how evidence and parameters are
encoded, are parameters, `Hashes`. The source caches the hashes it computed; nothing changes a block
in between.

A hash that is nil is an empty list here.
-/

namespace CometBFT.Types

/-! ### Evidence -/

structure DuplicateVoteEvidence where
  voteA : Option Vote
  voteB : Option Vote
  totalVotingPower : ℤ
  validatorPower : ℤ
  timestamp : Time
deriving DecidableEq, Repr

structure LightClientAttackEvidence where
  conflictingBlock : LightBlock
  commonHeight : ℤ
  /-- The list can be nil, and so can each entry. -/
  byzantineValidators : Option (List (Option Validator))
  totalVotingPower : ℤ
  timestamp : Time
deriving DecidableEq, Repr

inductive Evidence where
  | duplicateVote (dve : DuplicateVoteEvidence)
  | lightClientAttack (l : LightClientAttackEvidence)
deriving DecidableEq, Repr

/-- `DuplicateVoteEvidence.ValidateBasic`. -/
def DuplicateVoteEvidence.validateBasic (dve : DuplicateVoteEvidence) : Bool :=
  match dve.voteA, dve.voteB with
  | some voteA, some voteB =>
    voteA.validateBasic ∧ voteB.validateBasic ∧ voteA.blockID.key < voteB.blockID.key
  | _, _ => false

/-- `LightClientAttackEvidence.ValidateBasic`. -/
def LightClientAttackEvidence.validateBasic (p : Primitives) (l : LightClientAttackEvidence) :
    Bool :=
  0 < l.totalVotingPower ∧ 0 < l.commonHeight ∧ l.commonHeight ≤ l.conflictingBlock.height ∧
    l.conflictingBlock.validateBasic p l.conflictingBlock.chainID

/-- `Evidence.ValidateBasic`. -/
def Evidence.validateBasic (p : Primitives) : Evidence → Bool
  | .duplicateVote dve => dve.validateBasic
  | .lightClientAttack l => l.validateBasic p

/-! ### Blocks -/

structure Block extends Header where
  txs : List Bytes
  evidence : List Evidence
  lastCommit : Option Commit
deriving DecidableEq, Repr

/-- Signatures and hashes, those of blocks included. -/
structure Hashes extends Primitives where
  /-- The Merkle root of the encoded signatures of a commit. -/
  hashCommitSigs : List CommitSig → Bytes
  /-- The Merkle root of the hashes of the transactions. -/
  hashTxs : List Bytes → Bytes
  /-- The Merkle root of the encoded evidence. -/
  hashEvidence : List Evidence → Bytes
  /-- The size of the encoded evidence. -/
  evidenceSize : List Evidence → ℤ
  /-- How the hashed parameters, `Block.MaxBytes` and `Block.MaxGas`, are encoded. -/
  encodeHashedParams : ℤ → ℤ → Bytes

variable (p : Hashes)

/-- `Commit.Hash`. -/
def Commit.hash (commit : Commit) : Bytes := p.hashCommitSigs commit.signatures

/-- `ConsensusParams.Hash`. -/
def ConsensusParams.hash (params : ConsensusParams) : Bytes :=
  p.sum (p.encodeHashedParams params.block.maxBytes params.block.maxGas)

/-- `EvidenceData.ByteSize`. -/
def evidenceByteSize (evidence : List Evidence) : ℤ :=
  if evidence = [] then 0 else p.evidenceSize evidence

inductive BlockError where
  | invalidHeader
  | nilLastCommit
  | wrongLastCommit
  | wrongLastCommitHash (expected got : Bytes)
  | wrongDataHash (expected got : Bytes)
  | invalidEvidence (i : ℕ)
  | wrongEvidenceHash (expected got : Bytes)
deriving DecidableEq, Repr

namespace Block

/-- `Block.ValidateBasic`. -/
def validateBasic (b : Block) : Option BlockError :=
  if b.toHeader.validateBasic = false then some .invalidHeader
  else match b.lastCommit with
  | none => some .nilLastCommit
  | some lastCommit =>
    if lastCommit.validateBasic = false then some .wrongLastCommit
    else if b.lastCommitHash ≠ lastCommit.hash p then
      some (.wrongLastCommitHash (lastCommit.hash p) b.lastCommitHash)
    else if b.dataHash ≠ p.hashTxs b.txs then
      some (.wrongDataHash (p.hashTxs b.txs) b.dataHash)
    else match b.evidence.zipIdx.find? fun e => !e.1.validateBasic p.toPrimitives with
    | some (_, i) => some (.invalidEvidence i)
    | none =>
      if b.evidenceHash ≠ p.hashEvidence b.evidence then
        some (.wrongEvidenceHash b.evidenceHash (p.hashEvidence b.evidence))
      else none

/-- `fillHeader`: what is missing of the header and follows from the rest of the block. -/
def fillHeader (b : Block) (lastCommit : Commit) : Header :=
  { b.toHeader with
    lastCommitHash := if b.lastCommitHash = [] then lastCommit.hash p else b.lastCommitHash
    dataHash := if b.dataHash = [] then p.hashTxs b.txs else b.dataHash
    evidenceHash := if b.evidenceHash = [] then p.hashEvidence b.evidence else b.evidenceHash }

/-- `Block.Hash`; nil for a block without a last commit. -/
def hash (b : Block) : Bytes :=
  match b.lastCommit with
  | none => []
  | some lastCommit => (b.fillHeader p lastCommit).hash p.toPrimitives

end Block

end CometBFT.Types
