import CometBFT.Types.Validation

/-!
# Headers

The model of `Header` (`types/block.go`) and of `SignedHeader` and `LightBlock` (`types/light.go`).
In the source these embed one another by pointers; here none is nil.

Hash functions and the encodings that are hashed are parameters, `Primitives`. What is hashed of a
validator set is modelled: keys and powers for `Hash`, and for `ProposerPriorityHash` the buffer as
the source fills it.
-/

namespace CometBFT.Types

/-- `version.Consensus`. -/
structure Version where
  block : UInt64
  app : UInt64
deriving DecidableEq, Repr

/-- `version.BlockProtocol`. -/
def blockProtocol : UInt64 := 11

def maxChainIDLen : ℕ := 50

structure Header where
  version : Version
  chainID : String
  height : ℤ
  time : Time
  lastBlockID : BlockID
  lastCommitHash : Bytes
  dataHash : Bytes
  validatorsHash : Bytes
  nextValidatorsHash : Bytes
  consensusHash : Bytes
  appHash : Bytes
  lastResultsHash : Bytes
  evidenceHash : Bytes
  proposerAddress : Bytes
deriving DecidableEq, Repr

structure SignedHeader extends Header where
  commit : Commit
deriving DecidableEq, Repr

structure LightBlock extends SignedHeader where
  validatorSet : ValidatorSet
deriving DecidableEq, Repr

/-- Signatures and hashes. -/
structure Primitives extends Scheme where
  /-- `tmhash.Sum`. -/
  sum : Bytes → Bytes
  /-- The Merkle root of the fields of a header; none if they cannot be encoded, as with a time before
  the year 1 or after 9999. -/
  hashHeader : Header → Option Bytes
  /-- The Merkle root of the keys and powers of a validator set. -/
  hashValidators : List (Option PubKey × ℤ) → Bytes

/-- `ValidatorSet.Hash`. -/
def ValidatorSet.hash (p : Primitives) (vals : ValidatorSet) : Bytes :=
  p.hashValidators (vals.validators.map fun val => (val.pubKey, val.votingPower))

/-- `binary.PutVarint`: the sign goes into the lowest bit. -/
def putVarint (x : ℤ) : Bytes := encodeVarint 10 (if x < 0 then -2 * x - 1 else 2 * x).toNat

/-- The buffer of `ProposerPriorityHash` and the length of what is hashed of it. Each priority is
written to the beginning of the buffer. -/
def priorityBuffer (vals : List Validator) : Bytes × ℕ :=
  vals.foldl (fun (buf, total) val =>
    let bytes := putVarint val.proposerPriority
    (bytes ++ buf.drop bytes.length, total + bytes.length))
    (List.replicate (10 * vals.length) 0, 0)

def ValidatorSet.proposerPriorityHash (p : Primitives) (vals : ValidatorSet) : Bytes :=
  if vals.validators = [] then []
  else
    let (buf, total) := priorityBuffer vals.validators
    p.sum (buf.take total)

/-- `Header.Hash`; nil, an empty list here, without validators. -/
def Header.hash (p : Primitives) (h : Header) : Bytes :=
  if h.validatorsHash = [] then [] else (p.hashHeader h).getD []

/-- `Header.ValidateBasic`. -/
def Header.validateBasic (h : Header) : Bool :=
  h.version.block = blockProtocol ∧ h.chainID.utf8ByteSize ≤ maxChainIDLen ∧ 0 < h.height ∧
    h.lastBlockID.validateBasic ∧ validateHash h.lastCommitHash ∧ validateHash h.dataHash ∧
    validateHash h.evidenceHash ∧ h.proposerAddress.length = addressSize ∧
    validateHash h.validatorsHash ∧ validateHash h.nextValidatorsHash ∧
    validateHash h.consensusHash ∧ validateHash h.lastResultsHash

/-- `SignedHeader.ValidateBasic`. -/
def SignedHeader.validateBasic (p : Primitives) (chainID : String) (sh : SignedHeader) : Bool :=
  sh.toHeader.validateBasic ∧ sh.commit.validateBasic ∧ sh.chainID = chainID ∧
    sh.commit.height = sh.height ∧ sh.toHeader.hash p = sh.commit.blockID.hash

/-- `LightBlock.ValidateBasic`. -/
def LightBlock.validateBasic (p : Primitives) (chainID : String) (lb : LightBlock) : Bool :=
  lb.toSignedHeader.validateBasic p chainID ∧ lb.validatorSet.validateBasic p.toCrypto ∧
    lb.validatorsHash = lb.validatorSet.hash p

/-- `Hash` of a light block is that of its header. -/
def LightBlock.hash (p : Primitives) (lb : LightBlock) : Bytes := lb.toHeader.hash p

end CometBFT.Types
