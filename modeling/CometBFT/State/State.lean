import CometBFT.Types.Block

/-!
# The state of a chain

The model of `State` and `MakeGenesisState` (`state/state.go`) and of `updateState`
(`state/execution.go`), and of what they use of the genesis document and of the answers of the
application.

The source imports the package as `sm`. The validator set for a height is known two heights before: a
change that comes with the block at height `h` is for `h + 2`. Sets are copied in the source wherever
they could be shared. Heights are integers: they stay below `2^63`.
-/

namespace CometBFT.Sm

open CometBFT.Types

/-! ### Failures -/

/-- What `ValidateAndComplete` refuses. -/
inductive GenesisError where
  | noChainID
  | chainIDTooLong
  | negativeInitialHeight (got : ℤ)
  | params (e : ParamsError)
  | noVotingPower (i : ℕ)
  | incorrectAddress (i : ℕ)
deriving DecidableEq, Repr

/-- What `validateBlock` refuses. -/
inductive InvalidBlock where
  | basic (e : BlockError)
  | wrongVersion (expected got : Version)
  | wrongChainID (expected got : String)
  | wrongInitialHeight (expected got : ℤ)
  | wrongHeight (expected got : ℤ)
  | wrongLastBlockID (expected got : BlockID)
  | wrongAppHash (expected got : Bytes)
  | wrongConsensusHash (expected got : Bytes)
  | wrongLastResultsHash (expected got : Bytes)
  | wrongValidatorsHash (expected got : Bytes)
  | wrongNextValidatorsHash (expected got : Bytes)
  | initialLastCommit
  | lastCommit (e : CommitError)
  | proposerAddressSize (expected got : ℕ)
  | proposerNotValidator (address : Bytes)
  | timeNotGreater (time lastTime : Time)
  | wrongTime (expected got : Time)
  | beforeGenesis (time genesisTime : Time)
  | belowInitialHeight (height initialHeight : ℤ)
  | evidenceOverflow (max got : ℤ)
deriving DecidableEq, Repr

/-- The errors that the functions of this package return. -/
inductive Error where
  | genesis (e : GenesisError)
  | changingValidatorSet (e : ChangeError)
  | invalidParams (e : ParamsError)
  | updatingParams (e : ParamsError)
  | negativeVotingPower (key : PubKey)
  | unsupportedPubKey (key : PubKey)
  | invalidPubKey
  | txResultsLength (expected got : ℕ)
  | invalidBlock (e : InvalidBlock)
  /-- A validator, its key or the proposer is nil. -/
  | nilValidator
  /-- A decoded validator set does not pass `ValidateBasic`. -/
  | invalidValidatorSet
  | lastHeightChanged
  | noValSetForHeight (height : ℤ)
  | validatorsNotFound (lastStoredHeight height : ℤ)
  | paramsNotFound (height : ℤ)
  | lastParamsNotFound (lastHeightChanged height : ℤ)
  | pruneHeights (start stop : ℤ)
  | noLastABCIResponse (height : ℤ)
  | invalidBlockID
  | noState
  | storesApart (stateHeight blockHeight : ℤ)
  | blockNotFound (height : ℤ)
  | negativeAppHeight (height : ℤ)
  | noValidators
  | appBlockHeightTooLow (appHeight storeBase : ℤ)
  | appBlockHeightTooHigh (coreHeight appHeight : ℤ)
deriving DecidableEq, Repr

/-- How a call ends, if not with a result: it returns an error, or the process panics. -/
inductive Fault where
  | err (e : Error)
  | panic (msg : String)
deriving DecidableEq, Repr

def Fault.ofFailure : Failure → Fault
  | .err e => .err (.changingValidatorSet e)
  | .panic msg => .panic msg

/-- What a function of `types` returns. -/
def lift {α : Type} (r : Except Failure α) : Except Fault α := r.mapError Fault.ofFailure

theorem lift_eq_ok {α : Type} {r : Except Failure α} {a : α} : lift r = .ok a ↔ r = .ok a := by
  cases r with
  | ok b => exact ⟨fun h => congrArg _ (Except.ok.inj h), fun h => congrArg _ (Except.ok.inj h)⟩
  | error e => exact ⟨(nomatch ·), (nomatch ·)⟩

/-! ### States -/

/-- `cmtstate.Version`. -/
structure StateVersion where
  consensus : Version
  software : String
deriving DecidableEq, Repr

structure State where
  version : StateVersion
  chainID : String
  initialHeight : ℤ
  /-- 0 at genesis. -/
  lastBlockHeight : ℤ
  lastBlockID : BlockID
  lastBlockTime : Time
  nextValidators : ValidatorSet
  validators : ValidatorSet
  lastValidators : ValidatorSet
  lastHeightValidatorsChanged : ℤ
  consensusParams : ConsensusParams
  lastHeightConsensusParamsChanged : ℤ
  lastResultsHash : Bytes
  appHash : Bytes
deriving DecidableEq, Repr

/-- The height of the next block. -/
def State.nextHeight (state : State) : ℤ :=
  if state.lastBlockHeight = 0 then state.initialHeight else state.lastBlockHeight + 1

/-! ### Genesis -/

structure GenesisValidator where
  address : Bytes
  pubKey : PubKey
  power : ℤ
deriving DecidableEq, Repr

structure GenesisDoc where
  genesisTime : Time
  chainID : String
  initialHeight : ℤ
  consensusParams : Option ConsensusParams
  /-- The source tells a missing list from an empty one. -/
  validators : Option (List GenesisValidator)
  appHash : Bytes
  appState : Bytes
deriving DecidableEq, Repr

/-- `version.CMTSemVer`. -/
def cmtSemVer : String := "1.0.1"

/-- `NewValidator`. -/
def newValidator (crypto : Crypto) (pubKey : PubKey) (votingPower : ℤ) : Validator :=
  ⟨crypto.address pubKey, some pubKey, votingPower, 0⟩

namespace GenesisDoc

/-- `len(genDoc.Validators)` and what ranges over them see nil as the empty list. -/
def vals (genDoc : GenesisDoc) : List GenesisValidator := genDoc.validators.getD []

/-- The check of one validator in `ValidateAndComplete`. -/
def validateValidator (crypto : Crypto) (v : GenesisValidator × ℕ) : Option GenesisError :=
  if v.1.power = 0 then some (.noVotingPower v.2)
  else if v.1.address ≠ [] ∧ crypto.address v.1.pubKey ≠ v.1.address then
    some (.incorrectAddress v.2)
  else none

/-- The document with the defaults filled in; `now` is the time read from the clock. -/
def complete (crypto : Crypto) (now : Time) (genDoc : GenesisDoc) (params : ConsensusParams) :
    GenesisDoc :=
  { genDoc with
    initialHeight := if genDoc.initialHeight = 0 then 1 else genDoc.initialHeight
    consensusParams := some params
    validators := genDoc.validators.map (List.map fun v =>
      if v.address = [] then { v with address := crypto.address v.pubKey } else v)
    genesisTime := if genDoc.genesisTime = zeroTime then now else genDoc.genesisTime }

/-- `ValidateAndComplete`: the document and its parameters. -/
def validateAndComplete (crypto : Crypto) (now : Time) (genDoc : GenesisDoc) :
    Except GenesisError (GenesisDoc × ConsensusParams) :=
  let params := genDoc.consensusParams.getD defaultConsensusParams
  if genDoc.chainID = "" then .error .noChainID
  else if genDoc.chainID.utf8ByteSize > maxChainIDLen then .error .chainIDTooLong
  else if genDoc.initialHeight < 0 then .error (.negativeInitialHeight genDoc.initialHeight)
  else match genDoc.consensusParams.bind ConsensusParams.validateBasic with
  | some e => .error (.params e)
  | none =>
    match genDoc.vals.zipIdx.findSome? (validateValidator crypto) with
    | some e => .error e
    | none => .ok (genDoc.complete crypto now params, params)

end GenesisDoc

/-- The validators of a genesis document. -/
def GenesisDoc.toValidators (crypto : Crypto) (genDoc : GenesisDoc) : List Validator :=
  genDoc.vals.map fun val => newValidator crypto val.pubKey val.power

/-- The sets for the first height and for the one after, from the validators given for the first. -/
def initialValidatorSets (valz : List Validator) : Except Fault (ValidatorSet × ValidatorSet) := do
  let validatorSet ← lift (newValidatorSet valz)
  let nextValidatorSet ← lift (validatorSet.incrementProposerPriority 1)
  return (validatorSet, nextValidatorSet)

/-- The sets of `MakeGenesisState`. -/
def genesisValidatorSets (crypto : Crypto) (genDoc : GenesisDoc) :
    Except Fault (ValidatorSet × ValidatorSet) :=
  match genDoc.validators with
  | none => do
    let empty ← lift (newValidatorSet [])
    return (empty, empty)
  | some _ => initialValidatorSets (genDoc.toValidators crypto)

def makeGenesisState (crypto : Crypto) (now : Time) (genDoc : GenesisDoc) : Except Fault State :=
  match genDoc.validateAndComplete crypto now with
  | .error e => .error (.err (.genesis e))
  | .ok (genDoc, params) => do
    let (validatorSet, nextValidatorSet) ← genesisValidatorSets crypto genDoc
    let lastValidators ← lift (newValidatorSet [])
    return {
      version := ⟨⟨blockProtocol, 0⟩, cmtSemVer⟩
      chainID := genDoc.chainID
      initialHeight := genDoc.initialHeight
      lastBlockHeight := 0
      lastBlockID := {}
      lastBlockTime := genDoc.genesisTime
      nextValidators := nextValidatorSet
      validators := validatorSet
      lastValidators := lastValidators
      lastHeightValidatorsChanged := genDoc.initialHeight
      consensusParams := params
      lastHeightConsensusParamsChanged := genDoc.initialHeight
      lastResultsHash := []
      appHash := genDoc.appHash }

/-! ### The next state -/

/-- What is hashed of the result of a transaction. -/
structure TxResult where
  code : UInt32
  data : Bytes
  gasWanted : ℤ
  gasUsed : ℤ
deriving DecidableEq, Repr

structure ValidatorUpdate where
  power : ℤ
  pubKeyType : String
  pubKeyBytes : Bytes
deriving DecidableEq, Repr

/-- `abci.FinalizeBlockResponse`. -/
structure FinalizeBlockResponse where
  txResults : List TxResult
  validatorUpdates : List ValidatorUpdate
  consensusParamUpdates : Option ParamsUpdate
  appHash : Bytes
deriving DecidableEq, Repr

/-- The validator set of `updateState`, and the height from which it is used. -/
def State.nextValidatorSet (state : State) (header : Header) (validatorUpdates : List Validator) :
    Except Fault (ValidatorSet × ℤ) :=
  if validatorUpdates ≠ [] then do
    let changed ← lift (state.nextValidators.updateWithChangeSet validatorUpdates true)
    let nValSet ← lift (changed.incrementProposerPriority 1)
    -- change results from this height but only applies to the height + 2
    return (nValSet, header.height + 1 + 1)
  else do
    let nValSet ← lift (state.nextValidators.incrementProposerPriority 1)
    return (nValSet, state.lastHeightValidatorsChanged)

/-- The parameters of `updateState`, the height from which they are used, and the version. -/
def State.nextParams (state : State) (header : Header) (updates : Option ParamsUpdate) :
    Except Fault (ConsensusParams × ℤ × StateVersion) :=
  match updates with
  | none => .ok (state.consensusParams, state.lastHeightConsensusParamsChanged, state.version)
  | some updates =>
    let nextParams := state.consensusParams.update updates
    match nextParams.validateBasic with
    | some e => .error (.err (.invalidParams e))
    | none =>
      match state.consensusParams.validateUpdate updates header.height with
      | some e => .error (.err (.updatingParams e))
      | none =>
        let consensus := { state.version.consensus with app := nextParams.version.app }
        .ok (nextParams, header.height + 1, { state.version with consensus := consensus })

/-- Without an update the parameters stay; an update was valid, and allowed at the height. -/
theorem State.nextParams_cases {state : State} {header : Header} {updates : Option ParamsUpdate}
    {params : ConsensusParams} {c : ℤ} {version : StateVersion}
    (h : state.nextParams header updates = .ok (params, c, version)) :
    params = state.consensusParams ∧ c = state.lastHeightConsensusParamsChanged ∧
        version = state.version ∨
      ∃ upd, params = state.consensusParams.update upd ∧
        state.consensusParams.validateUpdate upd header.height = none ∧ c = header.height + 1 ∧
        version = { state.version with consensus.app := params.version.app } := by
  unfold State.nextParams at h
  split at h
  · cases h
    exact .inl ⟨rfl, rfl, rfl⟩
  · dsimp only at h
    split at h
    · cases h
    split at h
    · cases h
    · rename_i hvalid
      cases h
      exact .inr ⟨_, rfl, hvalid, rfl, rfl⟩

/-- `updateState`. The hash of the results is a parameter; the application's hash is filled in when
the state is saved. -/
def updateState (hashResults : List TxResult → Bytes) (state : State) (blockID : BlockID)
    (header : Header) (abciResponse : FinalizeBlockResponse) (validatorUpdates : List Validator) :
    Except Fault State := do
  let (nValSet, lastHeightValsChanged) ← state.nextValidatorSet header validatorUpdates
  let (nextParams, lastHeightParamsChanged, nextVersion) ←
    state.nextParams header abciResponse.consensusParamUpdates
  return {
    version := nextVersion
    chainID := state.chainID
    initialHeight := state.initialHeight
    lastBlockHeight := header.height
    lastBlockID := blockID
    lastBlockTime := header.time
    nextValidators := nValSet
    validators := state.nextValidators
    lastValidators := state.validators
    lastHeightValidatorsChanged := lastHeightValsChanged
    consensusParams := nextParams
    lastHeightConsensusParamsChanged := lastHeightParamsChanged
    lastResultsHash := hashResults abciResponse.txResults
    appHash := [] }

end CometBFT.Sm
