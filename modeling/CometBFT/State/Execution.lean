import CometBFT.State.Store
import CometBFT.State.Validation

/-!
# Executing blocks

The model of `state/execution.go`, of the block store (`store/store.go`) as far as it holds blocks, and
of what `finalizeCommit` does once a block is decided.

The application is a parameter: deterministic functions on a state of its own. What it has committed
survives a crash, and with it the height and the hash that `Info` reports; what it has executed since
does not. Mempool, evidence pool and events are left out.

Each step that writes to disk is recorded, with what is on disk after it. Those are the points at which
the source calls `fail.Fail` to test what happens if the process dies.
-/

namespace CometBFT.Sm

open CometBFT.Types Function

/-! ### Requests to the application -/

structure VoteInfo where
  address : Bytes
  power : ℤ
  blockIDFlag : BlockIDFlag
deriving DecidableEq, Repr

/-- `abci.CommitInfo`. -/
structure CommitInfo where
  round : ℤ := 0
  votes : List VoteInfo := []
deriving DecidableEq, Repr

structure FinalizeBlockRequest where
  hash : Bytes
  nextValidatorsHash : Bytes
  proposerAddress : Bytes
  height : ℤ
  time : Time
  decidedLastCommit : CommitInfo
  misbehavior : List Evidence
  txs : List Bytes
  syncingToHeight : ℤ
deriving DecidableEq, Repr

structure InitChainRequest where
  time : Time
  chainID : String
  initialHeight : ℤ
  consensusParams : ConsensusParams
  validators : List ValidatorUpdate
  appStateBytes : Bytes
deriving DecidableEq, Repr

structure InitChainResponse where
  consensusParams : Option ParamsUpdate := none
  validators : List ValidatorUpdate := []
  appHash : Bytes := []
deriving DecidableEq, Repr

/-! ### The application -/

/-- A deterministic application with states `σ`. -/
structure Application (σ : Type) where
  /-- What `Info` reports as `AppVersion`. -/
  appVersion : σ → UInt64
  initChain : InitChainRequest → σ → InitChainResponse × σ
  finalizeBlock : FinalizeBlockRequest → σ → FinalizeBlockResponse × σ

/-- A running application: what is on disk, with the height and hash of the last block that was
committed, and what it works on, with those of the last block that was executed. -/
structure AppState (σ : Type) where
  durable : σ
  height : ℤ := 0
  hash : Bytes := []
  working : σ
  executed : ℤ × Bytes := (0, [])
  /-- The heights that were committed, in order. -/
  log : List ℤ := []

namespace AppState

variable {σ : Type}

/-- After a crash. -/
def restart (a : AppState σ) : AppState σ :=
  { a with working := a.durable, executed := (a.height, a.hash) }

/-- `Commit`, the only place where the application writes to disk. -/
def commit (a : AppState σ) : AppState σ :=
  { a with
    durable := a.working
    height := a.executed.1
    hash := a.executed.2
    log := a.log ++ [a.executed.1] }

end AppState

/-- `proxy.AppConnConsensus`, as far as blocks are executed over it. -/
structure Conn (τ : Type) where
  finalizeBlock : FinalizeBlockRequest → τ → FinalizeBlockResponse × τ
  commit : τ → τ

/-- The connection to the application. -/
def Application.conn {σ : Type} (app : Application σ) : Conn (AppState σ) where
  finalizeBlock req a :=
    let (resp, working) := app.finalizeBlock req a.working
    (resp, { a with working := working, executed := (req.height, resp.appHash) })
  commit := AppState.commit

/-- `newMockProxyApp`: the answer is known, and the application is left alone. -/
def mockConn {τ : Type} (resp : FinalizeBlockResponse) : Conn τ where
  finalizeBlock _ a := (resp, a)
  commit a := a

/-! ### The block store -/

structure BlockStore where
  base : ℤ := 0
  height : ℤ := 0
  blocks : ℤ → Option (Block × BlockID) := fun _ => none

namespace BlockStore

variable (bs : BlockStore)

/-- `SaveBlock`, an error of which is a panic. The parts are complete and the commit is for the
block. -/
def saveBlock (block : Block) (blockID : BlockID) : Except Fault BlockStore :=
  if 0 < bs.base ∧ block.height ≠ bs.height + 1 then
    .error (.panic "BlockStore can only save contiguous blocks")
  else .ok {
    base := if bs.base = 0 then block.height else bs.base
    height := block.height
    blocks := update bs.blocks block.height (some (block, blockID)) }

def deleteLatestBlock : BlockStore :=
  { bs with height := bs.height - 1, blocks := update bs.blocks bs.height none }

end BlockStore

/-! ### The state after a block -/

/-- `validateValidatorUpdates`. -/
def validateValidatorUpdates (updates : List ValidatorUpdate) (params : ValidatorParams) :
    Option Error :=
  updates.findSome? fun u =>
    if u.power < 0 then some (.negativeVotingPower ⟨u.pubKeyType, u.pubKeyBytes⟩)
    else if u.pubKeyType ∈ params.pubKeyTypes then none
    else some (.unsupportedPubKey ⟨u.pubKeyType, u.pubKeyBytes⟩)

/-- `PB2TM.ValidatorUpdates`. -/
def pb2tmValidatorUpdates (crypto : Crypto) (updates : List ValidatorUpdate) :
    Except Fault (List Validator) :=
  updates.mapM fun u =>
    if decodesKey ⟨u.pubKeyType, u.pubKeyBytes⟩ then
      .ok (newValidator crypto ⟨u.pubKeyType, u.pubKeyBytes⟩ u.power)
    else .error (.err .invalidPubKey)

/-- Hashes, and how the node is configured. -/
structure Env extends Hashes where
  /-- `TxResultsHash`. -/
  hashResults : List TxResult → Bytes
  discardABCIResponses : Bool

/-- What `applyBlock` does between saving the answer and `Commit`: the state after the block. -/
def nextState (env : Env) (state : State) (blockID : BlockID) (header : Header)
    (resp : FinalizeBlockResponse) : Except Fault State :=
  match validateValidatorUpdates resp.validatorUpdates state.consensusParams.validator with
  | some e => .error (.err e)
  | none => do
    let updates ← pb2tmValidatorUpdates env.toCrypto resp.validatorUpdates
    updateState env.hashResults state blockID header resp updates

/-! ### The last commit, for the application -/

/-- The power of a validator and how it voted; a nil key panics. -/
def voteInfo (crypto : Crypto) (v : Validator × CommitSig) : Except Fault VoteInfo :=
  match v.1.pubKey with
  | none => .error (.panic nilDereference)
  | some key => .ok ⟨crypto.address key, v.1.votingPower, v.2.blockIDFlag⟩

def buildLastCommitInfo (crypto : Crypto) (block : Block) (lastValSet : ValidatorSet)
    (initialHeight : ℤ) : Except Fault CommitInfo :=
  if block.height = initialHeight then .ok {}
  else match block.lastCommit with
  | none => .error (.panic "commit size doesn't match validator set length")
  | some commit =>
    if commit.signatures.length ≠ lastValSet.validators.length then
      .error (.panic "commit size doesn't match validator set length")
    else do
      let votes ← (lastValSet.validators.zip commit.signatures).mapM (voteInfo crypto)
      return ⟨commit.round, votes⟩

def buildLastCommitInfoFromStore (crypto : Crypto) (block : Block) (store : Store)
    (initialHeight : ℤ) : Except Fault CommitInfo :=
  if block.height = initialHeight then .ok {}
  else match store.loadValidators crypto (block.height - 1) with
  | .error _ => .error (.panic "failed to load validator set")
  | .ok lastValSet => buildLastCommitInfo crypto block lastValSet initialHeight

/-- The request for a block. -/
def finalizeBlockRequest (env : Env) (block : Block) (info : CommitInfo) (syncingToHeight : ℤ) :
    FinalizeBlockRequest where
  hash := block.hash env.toHashes
  nextValidatorsHash := block.nextValidatorsHash
  proposerAddress := block.proposerAddress
  height := block.height
  time := block.time
  decidedLastCommit := info
  misbehavior := block.evidence
  txs := block.txs
  syncingToHeight := syncingToHeight

/-! ### Applying a block -/

/-- What a node has: its two stores, the last `#ENDHEIGHT` of its log, and the application. -/
structure World (τ : Type) where
  blocks : BlockStore := {}
  wal : ℤ := 0
  store : Store := {}
  app : τ

/-- How a call ends, with what was on disk after each of the steps that write to it. -/
structure Traced (τ α : Type) where
  world : World τ
  trace : List (World τ) := []
  result : Except Fault α

/-- The call comes after others. -/
def Traced.after {τ α : Type} (o : Traced τ α) (trace : List (World τ)) : Traced τ α :=
  { o with trace := trace ++ o.trace }

/-- One call after another; what was on disk is recorded for both. -/
def Traced.andThen {τ α β : Type} (o : Traced τ α) (f : World τ → α → Traced τ β) : Traced τ β :=
  match o.result with
  | .error e => ⟨o.world, o.trace, .error e⟩
  | .ok a => (f o.world a).after o.trace

section AndThen

variable {τ α β : Type} {o : Traced τ α} {f : World τ → α → Traced τ β}

theorem Traced.andThen_of_ok {a : α} (h : o.result = .ok a) :
    o.andThen f = (f o.world a).after o.trace := by
  unfold Traced.andThen
  rw [h]

theorem Traced.exists_of_andThen {b : β} (h : (o.andThen f).result = .ok b) :
    ∃ a, o.result = .ok a ∧ (f o.world a).result = .ok b := by
  cases ho : o.result with
  | error e =>
    unfold Traced.andThen at h
    rw [ho] at h
    cases h
  | ok a =>
    rw [Traced.andThen_of_ok ho] at h
    exact ⟨a, rfl, h⟩

end AndThen

section Apply

variable {τ : Type} (env : Env) (conn : Conn τ) (w : World τ) (state : State) (blockID : BlockID)
  (block : Block)

/-- `applyBlock` once the application has answered: the answer is saved, the application commits, and
the new state is saved. -/
def commitResponse (resp : FinalizeBlockResponse) : Traced τ State :=
  if block.txs.length ≠ resp.txResults.length then
    ⟨w, [], .error (.err (.txResultsLength block.txs.length resp.txResults.length))⟩
  else
    let w₁ := { w with store :=
      w.store.saveFinalizeBlockResponse env.discardABCIResponses block.height resp }
    match nextState env state blockID block.toHeader resp with
    | .error e => ⟨w₁, [w₁], .error e⟩
    | .ok next =>
      let w₂ := { w₁ with app := conn.commit w₁.app }
      let next := { next with appHash := resp.appHash }
      match w₂.store.save next with
      | .error e => ⟨w₂, [w₁, w₂], .error e⟩
      | .ok store =>
        let w₃ := { w₂ with store := store }
        ⟨w₃, [w₁, w₂, w₃], .ok next⟩

/-- `applyBlock`, which is also `ApplyVerifiedBlock`. -/
def applyVerifiedBlock (syncingToHeight : ℤ) : Traced τ State :=
  match buildLastCommitInfoFromStore env.toCrypto block w.store state.initialHeight with
  | .error e => ⟨w, [], .error e⟩
  | .ok info =>
    let (resp, app) := conn.finalizeBlock (finalizeBlockRequest env block info syncingToHeight) w.app
    commitResponse env conn { w with app := app } state blockID block resp

/-- `ApplyBlock`. -/
def applyBlock (syncingToHeight : ℤ) : Traced τ State :=
  match validateBlock env.toHashes state block with
  | .error e => ⟨w, [], .error e⟩
  | .ok (some e) => ⟨w, [], .error (.err (.invalidBlock e))⟩
  | .ok none => applyVerifiedBlock env conn w state blockID block syncingToHeight

/-- The block store when the log says that the height has ended. -/
def saveDecided : Except Fault BlockStore :=
  if w.blocks.height < block.height then w.blocks.saveBlock block blockID else .ok w.blocks

/-- `finalizeCommit`, for a block that was decided. -/
def finalizeCommit : Traced τ State :=
  match validateBlock env.toHashes state block with
  | .error e => ⟨w, [], .error e⟩
  | .ok (some _) => ⟨w, [], .error (.panic "+2/3 committed an invalid block")⟩
  | .ok none =>
    match saveDecided w blockID block with
    | .error e => ⟨w, [], .error e⟩
    | .ok blocks =>
      let w₁ := { w with blocks := blocks }
      let w₂ := { w₁ with wal := block.height }
      let out := applyVerifiedBlock env conn w₂ state blockID block block.height
      { out with trace := w₁ :: w₂ :: out.trace }

/-- `ExecCommitBlock`: the block is executed and committed, and the state is not touched. -/
def execCommitBlock (initialHeight finalHeight : ℤ) : τ × Except Fault Bytes :=
  match buildLastCommitInfoFromStore env.toCrypto block w.store initialHeight with
  | .error e => (w.app, .error e)
  | .ok info =>
    let (resp, app) := conn.finalizeBlock (finalizeBlockRequest env block info finalHeight) w.app
    if block.txs.length ≠ resp.txResults.length then
      (app, .error (.err (.txResultsLength block.txs.length resp.txResults.length)))
    else (conn.commit app, .ok resp.appHash)

end Apply

/-! ### A block that was applied -/

/-- The store with the answer for a height. -/
def Env.answered (env : Env) (store : Store) (height : ℤ) (resp : FinalizeBlockResponse) : Store :=
  store.saveFinalizeBlockResponse env.discardABCIResponses height resp

/-- To save an answer twice is to save it once. -/
theorem Env.answered_answered (env : Env) (store : Store) (height : ℤ)
    (resp : FinalizeBlockResponse) :
    env.answered (env.answered store height resp) height resp = env.answered store height resp := by
  have hne : height - 1 ≠ height := by omega
  unfold Env.answered Store.saveFinalizeBlockResponse
  dsimp only
  split_ifs
  · rw [update_comm hne, update_idem, update_comm hne.symm,
      update_idem]
  · rw [update_idem]

theorem Env.loadLast_answered (env : Env) (store : Store) (height : ℤ)
    (resp : FinalizeBlockResponse) :
    (env.answered store height resp).loadLastFinalizeBlockResponse height = .ok resp := by
  unfold Store.loadLastFinalizeBlockResponse Env.answered Store.saveFinalizeBlockResponse
  dsimp only
  rw [update_self]

section Applied

variable {τ : Type} {env : Env} {conn : Conn τ} {w : World τ} {store store' : Store} {a a' : τ}
  {state state' : State} {blockID : BlockID} {block : Block} {resp : FinalizeBlockResponse}

/-- The application, in state `a`, answers the request for the block with `resp`. With that answer
`state'` follows `state`, and `store'` is the store at the end. -/
structure Applied (env : Env) (conn : Conn τ) (store : Store) (a : τ) (state : State)
    (blockID : BlockID) (block : Block) (resp : FinalizeBlockResponse) (a' : τ) (state' : State)
    (store' : Store) : Prop where
  finalizeBlock : ∃ info,
    buildLastCommitInfoFromStore env.toCrypto block store state.initialHeight = .ok info ∧
      conn.finalizeBlock (finalizeBlockRequest env block info block.height) a = (resp, a')
  txResults : block.txs.length = resp.txResults.length
  next : ∃ mid, nextState env state blockID block.toHeader resp = .ok mid ∧
    state' = { mid with appHash := resp.appHash }
  save : (env.answered store block.height resp).save state' = .ok store'

/-- **What is on disk** after each step of a block that is applied. -/
theorem Applied.applyVerifiedBlock_eq
    (h : Applied env conn w.store w.app state blockID block resp a' state' store') :
    applyVerifiedBlock env conn w state blockID block block.height =
      ⟨{ w with store := store', app := conn.commit a' },
        [{ w with store := env.answered w.store block.height resp, app := a' },
          { w with store := env.answered w.store block.height resp, app := conn.commit a' },
          { w with store := store', app := conn.commit a' }], .ok state'⟩ := by
  obtain ⟨⟨info, hinfo, hresp⟩, htxs, ⟨mid, hmid, rfl⟩, hsave⟩ := h
  unfold applyVerifiedBlock
  rw [hinfo]
  show commitResponse env conn
    { w with app := (conn.finalizeBlock (finalizeBlockRequest env block info block.height) w.app).2 }
    state blockID block
    (conn.finalizeBlock (finalizeBlockRequest env block info block.height) w.app).1 = _
  rw [hresp]
  unfold commitResponse
  dsimp only
  rw [if_neg (not_not.mpr htxs), hmid]
  dsimp only
  change Store.save (w.store.saveFinalizeBlockResponse _ _ _) _ = _ at hsave
  rw [hsave]
  rfl

/-- A block that is applied, while the node syncs to whatever height. -/
theorem of_applyVerifiedBlock {syncingToHeight : ℤ}
    (h : (applyVerifiedBlock env conn w state blockID block syncingToHeight).result = .ok state') :
    ∃ info resp a' mid store',
      buildLastCommitInfoFromStore env.toCrypto block w.store state.initialHeight = .ok info ∧
      conn.finalizeBlock (finalizeBlockRequest env block info syncingToHeight) w.app = (resp, a') ∧
      block.txs.length = resp.txResults.length ∧
      nextState env state blockID block.toHeader resp = .ok mid ∧
      state' = { mid with appHash := resp.appHash } ∧
      (env.answered w.store block.height resp).save state' = .ok store' := by
  unfold applyVerifiedBlock at h
  split at h
  · cases h
  rename_i info hinfo
  unfold commitResponse at h
  dsimp only at h
  split_ifs at h with htxs
  split at h
  · cases h
  rename_i mid hmid
  split at h
  · cases h
  rename_i store' hsave
  cases h
  exact ⟨info, _, _, mid, store', hinfo, rfl, not_not.mp htxs, hmid, rfl, hsave⟩

theorem applied_of_applyVerifiedBlock
    (h : (applyVerifiedBlock env conn w state blockID block block.height).result = .ok state') :
    ∃ resp a' store', Applied env conn w.store w.app state blockID block resp a' state' store' := by
  obtain ⟨info, resp, a', mid, store', hinfo, hresp, htxs, hmid, hstate, hsave⟩ :=
    of_applyVerifiedBlock h
  exact ⟨resp, a', store', ⟨info, hinfo, hresp⟩, htxs, ⟨mid, hmid, hstate⟩, hsave⟩

/-- To apply the block once more, after its answer was saved, has the same result. -/
theorem Applied.of_answered
    (h : Applied env conn store a state blockID block resp a' state' store') :
    Applied env conn (env.answered store block.height resp) a state blockID block resp a' state'
      store' :=
  ⟨h.finalizeBlock, h.txResults, h.next, (env.answered_answered store block.height resp).symm ▸
    h.save⟩

/-- And so has it with the saved answer in place of the application. -/
theorem Applied.mock {υ : Type} (b : υ)
    (h : Applied env conn store a state blockID block resp a' state' store') :
    Applied env (mockConn resp) (env.answered store block.height resp) b state blockID block resp b
      state' store' := by
  obtain ⟨info, hinfo, -⟩ := h.finalizeBlock
  exact ⟨⟨info, hinfo, rfl⟩, h.of_answered.txResults, h.next, h.of_answered.save⟩

/-- **A block that was committed**: it is valid, it is saved, and it is applied. -/
theorem finalizeCommit_eq_ok (h : (finalizeCommit env conn w state blockID block).result = .ok state') :
    validateBlock env.toHashes state block = .ok none ∧
      ∃ blocks resp a' store', saveDecided w blockID block = .ok blocks ∧
        Applied env conn w.store w.app state blockID block resp a' state' store' := by
  unfold finalizeCommit at h
  split at h
  · cases h
  · cases h
  rename_i hvalid
  split at h
  · cases h
  rename_i blocks hblocks
  obtain ⟨resp, a', store', happlied⟩ := applied_of_applyVerifiedBlock h
  exact ⟨hvalid, blocks, resp, a', store', hblocks, happlied⟩

theorem Applied.finalizeCommit_eq
    (h : Applied env conn w.store w.app state blockID block resp a' state' store')
    (hvalid : validateBlock env.toHashes state block = .ok none) {blocks : BlockStore}
    (hblocks : saveDecided w blockID block = .ok blocks) :
    finalizeCommit env conn w state blockID block =
      ⟨⟨blocks, block.height, store', conn.commit a'⟩,
        [⟨blocks, w.wal, w.store, w.app⟩, ⟨blocks, block.height, w.store, w.app⟩,
          ⟨blocks, block.height, env.answered w.store block.height resp, a'⟩,
          ⟨blocks, block.height, env.answered w.store block.height resp, conn.commit a'⟩,
          ⟨blocks, block.height, store', conn.commit a'⟩], .ok state'⟩ := by
  unfold finalizeCommit
  rw [hvalid]
  dsimp only
  rw [hblocks]
  dsimp only
  rw [Applied.applyVerifiedBlock_eq (w := ⟨blocks, block.height, w.store, w.app⟩) h]

end Applied

end CometBFT.Sm
