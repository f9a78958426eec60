import CometBFT.State.Execution

/-!
# The handshake

The model of `Handshaker` (`internal/consensus/replay.go`). When a node starts, the application says
which block it has committed last; blocks it has not seen are executed again, so that the
application, the state store and the block store end up at one height. At most one block is applied
to the state: with the application, if it has not committed it, or else with the answer that was
saved.

The genesis document is the one that the node has loaded, which is validated and complete.
-/

namespace CometBFT.Consensus

open CometBFT.Types Sm

variable {σ : Type} (env : Env) (app : Application σ) (genDoc : GenesisDoc)

/-! ### InitChain -/

/-- `TM2PB.ValidatorUpdates`. -/
def tm2pbValidatorUpdates (vals : ValidatorSet) : Except Fault (List ValidatorUpdate) :=
  vals.validators.mapM fun v =>
    match v.pubKey with
    | none => .error (.panic nilDereference)
    | some key => .ok ⟨v.votingPower, key.type, key.bytes⟩

/-- The request of `InitChain`. -/
def initChainRequest (crypto : Crypto) : Except Fault InitChainRequest :=
  match genDoc.vals.find? fun val => !isSupported val.pubKey.type with
  | some val => .error (.err (.unsupportedPubKey val.pubKey))
  | none => do
    let validatorSet ← lift (newValidatorSet (genDoc.toValidators crypto))
    let nextVals ← tm2pbValidatorUpdates validatorSet
    match genDoc.consensusParams with
    | none => .error (.panic nilDereference)
    | some params =>
      return {
        time := genDoc.genesisTime
        chainID := genDoc.chainID
        initialHeight := genDoc.initialHeight
        consensusParams := params
        validators := nextVals
        appStateBytes := genDoc.appState }

/-- The validators of the application, or else those of the document. -/
def withValidators (crypto : Crypto) (state : State) (updates : List ValidatorUpdate) :
    Except Fault State :=
  if updates ≠ [] then do
    let vals ← pb2tmValidatorUpdates crypto updates
    let (validators, nextValidators) ← initialValidatorSets vals
    return { state with validators := validators, nextValidators := nextValidators }
  else if genDoc.vals = [] then .error (.err .noValidators)
  else .ok state

/-- The parameters of the application, and their version. -/
def withParams (state : State) : Option ParamsUpdate → State
  | none => state
  | some updates =>
    let params := state.consensusParams.update updates
    let consensus := { state.version.consensus with app := params.version.app }
    { state with
      consensusParams := params
      version := { state.version with consensus := consensus } }

/-- The parameters and the hashes. -/
def withResponse (state : State) (res : InitChainResponse) : State :=
  { withParams state res.consensusParams with
    appHash := if res.appHash ≠ [] then res.appHash else state.appHash
    lastResultsHash := env.hashResults [] }

/-- The first state of the chain, with what the application has changed. -/
def initState (state : State) (res : InitChainResponse) : Except Fault State := do
  let state ← withValidators genDoc env.toCrypto state res.validators
  return withResponse env state res

/-- `InitChain`: the state, which is saved if there is no block in it yet, and the hash of the
application. -/
def initChain (w : World (AppState σ)) (state : State) :
    Traced (AppState σ) (State × Bytes) :=
  match initChainRequest genDoc env.toCrypto with
  | .error e => ⟨w, [], .error e⟩
  | .ok req =>
    let (res, working) := app.initChain req w.app.working
    let w := { w with app := { w.app with working := working } }
    if state.lastBlockHeight = 0 then
      match initState env genDoc state res with
      | .error e => ⟨w, [], .error e⟩
      | .ok state =>
        match w.store.save state with
        | .error e => ⟨w, [], .error e⟩
        | .ok store =>
          let w := { w with store := store }
          ⟨w, [w], .ok (state, res.appHash)⟩
    else ⟨w, [], .ok (state, res.appHash)⟩

/-! ### Replaying blocks -/

/-- `assertAppHashEqualsOneFromState`. -/
def assertAppHash (appHash : Bytes) (state : State) : Except Fault Bytes :=
  if appHash = state.appHash then .ok appHash
  else .error (.panic "state.AppHash does not match AppHash after replay")

/-- `replayBlock`, which validates the block and applies it. -/
def replayBlock {τ : Type} (conn : Conn τ) (w : World τ) (state : State) (height : ℤ) :
    Traced τ State :=
  match w.blocks.blocks height with
  | none =>
    ⟨w, [], .error (.panic nilDereference)⟩
  | some (block, blockID) => applyBlock env conn w state blockID block block.height

/-- A block of the loop of `replayBlocks`. The hash after the block before, if any, is that in the
block. -/
def execBlock (finalHeight i : ℤ) (w : World (AppState σ)) (appHash : Bytes) :
    Traced (AppState σ) Bytes :=
  match w.blocks.blocks i with
  | none =>
    ⟨w, [], .error (.panic nilDereference)⟩
  | some (block, _) =>
    if appHash ≠ [] ∧ appHash ≠ block.appHash then
      { world := w,
        result := .error (.panic "block.AppHash does not match AppHash after replay") }
    else
      match execCommitBlock env app.conn w block genDoc.initialHeight finalHeight with
      | (a, .error e) => { world := { w with app := a }, result := .error e }
      | (a, .ok appHash) =>
        let w := { w with app := a }
        ⟨w, [w], .ok appHash⟩

/-- The loop of `replayBlocks`, over `n` blocks from height `i` on. -/
def execBlocks (finalHeight : ℤ) :
    ℕ → ℤ → World (AppState σ) → Bytes → Traced (AppState σ) Bytes
  | 0, _, w, appHash => ⟨w, [], .ok appHash⟩
  | n + 1, i, w, appHash =>
    (execBlock env app genDoc finalHeight i w appHash).andThen (execBlocks finalHeight n (i + 1))

/-- `replayBlocks`. -/
def replayBlocks (w : World (AppState σ)) (state : State) (appBlockHeight storeBlockHeight : ℤ)
    (mutateState : Bool) : Traced (AppState σ) Bytes :=
  let finalBlock := if mutateState then storeBlockHeight - 1 else storeBlockHeight
  let firstBlock := if appBlockHeight + 1 = 1 then state.initialHeight else appBlockHeight + 1
  (execBlocks env app genDoc storeBlockHeight (finalBlock - firstBlock + 1).toNat firstBlock w
    []).andThen fun w appHash =>
      if mutateState then
        (replayBlock env app.conn w state storeBlockHeight).andThen fun w state =>
          ⟨w, [], assertAppHash state.appHash state⟩
      else ⟨w, [], assertAppHash appHash state⟩

/-- The last block is applied with the answer that was saved. If that has no hash, it gets the one
that the application reported. -/
def replayCommitted (w : World (AppState σ)) (state : State) (appHash : Bytes)
    (storeBlockHeight : ℤ) : Traced (AppState σ) Bytes :=
  match w.store.loadLastFinalizeBlockResponse storeBlockHeight with
  | .error e => ⟨w, [], .error e⟩
  | .ok resp =>
    let resp := if resp.appHash = [] then { resp with appHash := appHash } else resp
    (replayBlock env (mockConn resp) w state storeBlockHeight).andThen fun w state =>
      ⟨w, [], .ok state.appHash⟩

/-- `ReplayBlocks` after `InitChain`: which blocks are replayed, and how. -/
def replayStored (appBlockHeight : ℤ) (w : World (AppState σ)) (state : State) (appHash : Bytes) :
    Traced (AppState σ) Bytes :=
  let storeBlockBase := w.blocks.base
  let storeBlockHeight := w.blocks.height
  let stateBlockHeight := state.lastBlockHeight
  if storeBlockHeight = 0 then ⟨w, [], assertAppHash appHash state⟩
  else if appBlockHeight = 0 ∧ state.initialHeight < storeBlockBase ∨
      0 < appBlockHeight ∧ appBlockHeight < storeBlockBase - 1 then
    ⟨w, [], .error (.err (.appBlockHeightTooLow appBlockHeight storeBlockBase))⟩
  else if storeBlockHeight < appBlockHeight then
    ⟨w, [], .error (.err (.appBlockHeightTooHigh storeBlockHeight appBlockHeight))⟩
  else if storeBlockHeight < stateBlockHeight then
    ⟨w, [], .error (.panic "StateBlockHeight > StoreBlockHeight")⟩
  else if stateBlockHeight + 1 < storeBlockHeight then
    ⟨w, [], .error (.panic "StoreBlockHeight > StateBlockHeight + 1")⟩
  else if storeBlockHeight = stateBlockHeight then
    if appBlockHeight < storeBlockHeight then
      replayBlocks env app genDoc w state appBlockHeight storeBlockHeight false
    else ⟨w, [], assertAppHash appHash state⟩
  else if appBlockHeight < stateBlockHeight then
    replayBlocks env app genDoc w state appBlockHeight storeBlockHeight true
  else if appBlockHeight = stateBlockHeight then
    (replayBlock env app.conn w state storeBlockHeight).andThen fun w state =>
      ⟨w, [], .ok state.appHash⟩
  else replayCommitted env w state appHash storeBlockHeight

/-- `ReplayBlocks`. -/
def replay (w : World (AppState σ)) (state : State) (appHash : Bytes) (appBlockHeight : ℤ) :
    Traced (AppState σ) Bytes :=
  if appBlockHeight = 0 then
    (initChain env app genDoc w state).andThen fun w (state, appHash) =>
      replayStored env app genDoc appBlockHeight w state appHash
  else replayStored env app genDoc appBlockHeight w state appHash

/-- The version that `Info` reports is set if there is no block in the state yet. -/
def withAppVersion (state : State) (appVersion : UInt64) : State :=
  if state.lastBlockHeight = 0 then
    { state with version := { state.version with
      consensus := { state.version.consensus with app := appVersion } } }
  else state

/-- `Handshake`. -/
def handshake (w : World (AppState σ)) (initialState : State) : Traced (AppState σ) Bytes :=
  if w.app.height < 0 then
    ⟨w, [], .error (.err (.negativeAppHeight w.app.height))⟩
  else replay env app genDoc w (withAppVersion initialState (app.appVersion w.app.durable))
    w.app.hash w.app.height

/-! ### Starting a node -/

/-- `LoadFromDBOrGenesisDoc`; `now` is the time read from the clock. -/
def loadFromDBOrGenesisDoc (now : Time) (store : Store) : Except Fault State :=
  match store.load env.toCrypto with
  | .error e => .error e
  | .ok (some state) => .ok state
  | .ok none => makeGenesisState env.toCrypto now genDoc

/-- What a node does when it starts, after a crash or for the first time. -/
def start (now : Time) (w : World (AppState σ)) : Traced (AppState σ) Bytes :=
  let w := { w with app := w.app.restart }
  match loadFromDBOrGenesisDoc env genDoc now w.store with
  | .error e => ⟨w, [], .error e⟩
  | .ok state => handshake env app genDoc w state

end CometBFT.Consensus
