import CometBFT.Consensus.Recovery
import CometBFT.Types.Alike

/-!
# Rolling back a block

The model of `Rollback` (`state/rollback.go`): the state before the last block is put together from
the state after it, the last two blocks, and the validators and parameters that were saved for their
heights. The validators of the block before may have other priorities, which nothing looks at any
more.

The version of the application is taken from the parameters. `Handshake` sets it from what `Info`
reports, and it need not be in the parameters unless the application has changed them.

## Main results

* `rolledBack_of_committing` — the state that is put together, field by field that of before
* `rollback_undoes` — the last block is valid for it exactly if it has the version of the parameters,
  and then leads to the same state again
* `rollback_rejects` — a block that is not valid any more
-/

namespace CometBFT.Sm

open CometBFT.Types Consensus Function Validators

/-! ### Rollback -/

/-- The state before the last block. -/
def rolledBack (crypto : Crypto) (bs : BlockStore) (ss : Store) (invalidState : State) :
    Except Fault State :=
  let rollbackHeight := invalidState.lastBlockHeight - 1
  match bs.blocks rollbackHeight with
  | none => .error (.err (.blockNotFound rollbackHeight))
  | some (rollbackBlock, rollbackID) =>
    match bs.blocks invalidState.lastBlockHeight with
    | none => .error (.err (.blockNotFound invalidState.lastBlockHeight))
    | some (latestBlock, _) => do
      let previousLastValidatorSet ← ss.loadValidators crypto rollbackHeight
      let previousParams ← ss.loadConsensusParams (rollbackHeight + 1)
      let nextHeight := rollbackHeight + 1
      let valChangeHeight := invalidState.lastHeightValidatorsChanged
      let paramsChangeHeight := invalidState.lastHeightConsensusParamsChanged
      return {
        version := ⟨⟨blockProtocol, previousParams.version.app⟩, cmtSemVer⟩
        chainID := invalidState.chainID
        initialHeight := invalidState.initialHeight
        lastBlockHeight := rollbackBlock.height
        lastBlockID := rollbackID
        lastBlockTime := rollbackBlock.time
        nextValidators := invalidState.validators
        validators := invalidState.lastValidators
        lastValidators := previousLastValidatorSet
        lastHeightValidatorsChanged :=
          if nextHeight + 1 < valChangeHeight then nextHeight + 1 else valChangeHeight
        consensusParams := previousParams
        lastHeightConsensusParamsChanged :=
          if rollbackHeight < paramsChangeHeight then rollbackHeight + 1 else paramsChangeHeight
        lastResultsHash := latestBlock.lastResultsHash
        appHash := latestBlock.appHash }

/-- `Rollback`: the two stores, and the height and the hash of the state. -/
def rollback (crypto : Crypto) (bs : BlockStore) (ss : Store) (removeBlock : Bool) :
    (BlockStore × Store) × Except Fault (ℤ × Bytes) :=
  let removed := if removeBlock then bs.deleteLatestBlock else bs
  match ss.load crypto with
  | .error e => ((bs, ss), .error e)
  | .ok none => ((bs, ss), .error (.err .noState))
  | .ok (some invalidState) =>
    -- the state was not updated: the pending block is discarded
    if bs.height = invalidState.lastBlockHeight + 1 then
      ((removed, ss), .ok (invalidState.lastBlockHeight, invalidState.appHash))
    else if bs.height ≠ invalidState.lastBlockHeight then
      ((bs, ss), .error (.err (.storesApart invalidState.lastBlockHeight bs.height)))
    else
      match rolledBack crypto bs ss invalidState with
      | .error e => ((bs, ss), .error e)
      | .ok state =>
        match ss.save state with
        | .error e => ((bs, ss), .error e)
        | .ok ss => ((removed, ss), .ok (state.lastBlockHeight, state.appHash))

/-! ### The validators of the block before -/

theorem alike_of_storable {crypto : Crypto} {vals vals' : ValidatorSet} (h : Storable crypto vals)
    (h' : Storable crypto vals')
    (hshape : vals'.validators.map Validator.shape = vals.validators.map Validator.shape) :
    Alike vals vals' where
  shape := hshape
  total := by rw [h'.total, h.total, powerSum_of_shape hshape]
  sameType := by
    have hsame := h'.sameType
    rw [checkAllKeysHaveSameType_of_shape hshape, h.sameType] at hsame
    exact (Except.ok.inj hsame).symm
  keyTypes htrue := by
    have hsame := h.sameType
    rw [checkAllKeysHaveSameType_eq fun v hv => (h.keyed v hv).keyType_ne, htrue] at hsame
    exact of_decide_eq_true (Except.ok.inj hsame)
  proposer := h.proposer
  proposer' := h'.proposer

/-- What is loaded has the same validators, if not the same priorities. -/
theorem Recorded.loadValidators_alike {crypto : Crypto} {store : Store} {height c : ℤ}
    {vals : ValidatorSet} (h : Recorded Turned crypto store height c vals) :
    ∃ vals', store.loadValidators crypto height = .ok vals' ∧ Storable crypto vals' ∧
      Alike vals vals' := by
  obtain ⟨vals', hload, hcases⟩ := h.exists_loadValidators
  refine ⟨vals', hload, ?_⟩
  rcases hcases with rfl | ⟨base, n, hbase, hrel, hinc⟩
  · exact ⟨h.live.toStorable, alike_of_storable h.live.toStorable h.live.toStorable rfl⟩
  · have hrotated := rotated_of_incrementProposerPriority hbase.nodup hinc
    have hst := hbase.toCoded.rotated hrotated
    exact ⟨hst, alike_of_storable h.live.toStorable hst (hrotated.shape.trans hrel.shape.symm)⟩

/-! ### The state that is put together -/

section

variable {σ : Type} {env : Env} {app : Application σ} {genDoc : GenesisDoc}
  {w : World (AppState σ)} {state state' : State} {d : Decided} {blocks : BlockStore}
  {resp : FinalizeBlockResponse} {a' : AppState σ} {store' : Store}

/-- The state of before, with other priorities of the last validators, with the version of the
parameters, and with the heights of the last changes as they are found later. -/
def Reassembled (state : State) (lastValidators : ValidatorSet) (c pc : ℤ) : State :=
  { state with
    version := { state.version with
      consensus := { state.version.consensus with app := state.consensusParams.version.app } }
    lastValidators := lastValidators
    lastHeightValidatorsChanged := c
    lastHeightConsensusParamsChanged := pc }

section

variable (h : Synced env app genDoc w state)
  (hc : Committing env app w state d blocks resp a' state' store')

include h hc

/-- The last step of the history. -/
theorem saved_of_committing : ∃ past dec,
      Consistent Turned env.toCrypto state.initialHeight
        ⟨env.answered w.store d.block.height resp, state, past⟩ ∧
      (state.lastBlockHeight ≠ 0 →
        History.used ⟨env.answered w.store d.block.height resp, state, past⟩ state.lastBlockHeight =
          some state.lastValidators) ∧
      Updated env.hashResults state dec state' ∧
      Saved env.toCrypto ⟨env.answered w.store d.block.height resp, state, past⟩ dec
        ⟨store', state', state :: past⟩ := by
  obtain ⟨past, hcons, hused⟩ := h.toChained.history
  replace hcons : Consistent Turned env.toCrypto state.initialHeight
      ⟨env.answered w.store d.block.height resp, state, past⟩ := hcons.congr rfl
  obtain ⟨dec, -, -, -, -, hupd, hstep⟩ :=
    hc.applied.decided (h.toChained.height_of_valid hc.valid) past
  exact ⟨past, dec, hcons, hused, hupd, hcons.saved hstep⟩

/-- The answer of the application is saved. -/
theorem loadLastFinalizeBlockResponse_of_committing :
    store'.loadLastFinalizeBlockResponse d.block.height = .ok resp := by
  obtain ⟨past, dec, -, -, -, hsaved⟩ := saved_of_committing h hc
  have hresponses : store'.responses = (env.answered w.store d.block.height resp).responses :=
    (congrArg Store.responses hsaved.store :)
  unfold Store.loadLastFinalizeBlockResponse
  rw [hresponses]
  exact env.loadLast_answered _ _ _

/-- **The state that is put together** is that of before. -/
theorem rolledBack_of_committing (hpos : state.lastBlockHeight ≠ 0) : ∃ vals c pc,
      rolledBack env.toCrypto blocks store' state' = .ok (Reassembled state vals c pc) ∧
      Storable env.toCrypto vals ∧ Alike state.lastValidators vals ∧
      c ≤ state.nextHeight + 1 ∧
      store'.loadConsensusParams state'.lastBlockHeight = .ok state.consensusParams := by
  have hheight := h.toChained.height_of_valid hc.valid
  have hfits := fits_of_validateBlock hc.valid
  have hnext : state.nextHeight = state.lastBlockHeight + 1 := if_neg hpos
  obtain ⟨past, dec, hcons, hused, hupd, hsaved⟩ := saved_of_committing h hc
  obtain ⟨hlast, hinitial, -⟩ := hc.applied.state_eq
  have hrest := hupd.rest
  have hchain : state'.chainID = state.chainID := by rw [hrest]
  have hvals : state'.validators = state.nextValidators := by rw [hrest]
  have hlastVals : state'.lastValidators = state.validators := by rw [hrest]
  rw [hheight, hnext] at hlast
  -- the two blocks
  have hblocks := hc.saved
  rw [h.toChained.saveDecided_eq hheight, hheight, hnext] at hblocks
  obtain ⟨block, hblock, hblockHeight, hblockTime⟩ := h.toChained.lastBlock hpos
  have hprevious : blocks.blocks state.lastBlockHeight = some (block, state.lastBlockID) := by
    cases hblocks
    exact (update_of_ne (by omega) _ _).trans hblock
  have hlatest : blocks.blocks (state.lastBlockHeight + 1) = some (d.block, d.blockID) := by
    cases hblocks
    exact update_self _ _ _
  -- the validators and the parameters that were saved
  have hle : state.initialHeight ≤ state.lastBlockHeight := h.toChained.heights.resolve_left hpos
  obtain ⟨vals₀, c₀, hused', hrec⟩ := hcons.recorded state.lastBlockHeight hle
    (by show state.lastBlockHeight ≤ state.nextHeight; omega)
  obtain rfl : state.lastValidators = vals₀ := Option.some.inj ((hused hpos).symm.trans hused')
  replace hrec : Recorded Turned env.toCrypto store' state.lastBlockHeight c₀
      state.lastValidators := by
    refine hrec.frame fun k hk => ?_
    have hstore := congrArg Store.validators hsaved.store
    have hnext' := hsaved.nextHeight
    dsimp only at hstore hnext'
    rw [hstore, update_of_ne (by omega)]
  obtain ⟨vals, hload, hst, halike⟩ := hrec.loadValidators_alike
  have hparams : store'.loadConsensusParams (state.lastBlockHeight + 1) =
      .ok state.consensusParams := by
    rw [← hnext]
    exact (h.toChained.params.frame fun k hk => hsaved.params_of_le hk).loadConsensusParams
  refine ⟨vals, if state.lastBlockHeight + 1 + 1 < state'.lastHeightValidatorsChanged then
      state.lastBlockHeight + 1 + 1 else state'.lastHeightValidatorsChanged,
    if state.lastBlockHeight < state'.lastHeightConsensusParamsChanged then
      state.lastBlockHeight + 1 else state'.lastHeightConsensusParamsChanged,
    ?_, hst, halike, ?_, hlast.symm ▸ hparams⟩
  · unfold rolledBack Reassembled
    rw [hlast, add_sub_cancel_right]
    dsimp only
    rw [hprevious, hlatest]
    dsimp only
    rw [bind_of_ok hload, bind_of_ok hparams, hchain, hinitial, hvals, hlastVals, hblockHeight,
      hblockTime, hfits.lastResultsHash, hfits.appHash, h.toChained.version]
    rfl
  · rw [hnext]
    split_ifs <;> omega

end

/-! ### What it is good for -/

variable {vals : ValidatorSet} {c pc : ℤ} {block : Block}

/-- The version is that of before if it is in the parameters. -/
theorem reassembled_version (hversion : state.version.consensus.app = state.consensusParams.version.app) :
    (Reassembled state vals c pc).version = state.version := by
  unfold Reassembled
  dsimp only
  rw [← hversion]

/-- **The block is valid** for the state that is put together. -/
theorem validateBlock_reassembled {p : Hashes} (halike : Alike state.lastValidators vals)
    (hversion : state.version.consensus.app = state.consensusParams.version.app)
    (hvalid : validateBlock p state block = .ok none) :
    validateBlock p (Reassembled state vals c pc) block = .ok none := by
  obtain ⟨lastCommit, hcommit, hbasic, hinfo, hlast, hrest⟩ := validateBlock_eq_none.mp hvalid
  refine validateBlock_eq_none.mpr ⟨lastCommit, hcommit, hbasic, ?_, ?_, ?_⟩
  · unfold validateBasicInfo at hinfo ⊢
    rw [reassembled_version hversion]
    exact hinfo
  · by_cases hfirst : block.height = state.initialHeight
    · unfold validateLastCommit at hlast ⊢
      rw [if_pos hfirst] at hlast
      exact (if_pos hfirst).trans hlast
    · have hfirst' : block.height ≠ (Reassembled state vals c pc).initialHeight := hfirst
      exact (validateLastCommit_eq_none hfirst').mpr
        (halike.verifyCommit ((validateLastCommit_eq_none hfirst).mp hlast))
  · have htime : validateTime (Reassembled state vals c pc) block lastCommit =
        validateTime state block lastCommit := by
      have hmedian : lastCommit.medianTime (Reassembled state vals c pc).lastValidators =
        lastCommit.medianTime state.lastValidators := halike.medianTime lastCommit
      unfold validateTime
      rw [hmedian]
      rfl
    unfold validateRest at hrest ⊢
    rw [htime]
    exact hrest

/-- **The same state again**, apart from the heights of the last changes. -/
theorem updateState_reassembled (vals : ValidatorSet) (c pc : ℤ)
    {hashResults : List TxResult → Bytes} {blockID : BlockID} {header : Header} {updates : List Validator}
    (hversion : state.version.consensus.app = state.consensusParams.version.app)
    (h : updateState hashResults state blockID header resp updates = .ok state') :
    ∃ c' pc', updateState hashResults (Reassembled state vals c pc) blockID header resp updates =
      .ok { state' with lastHeightValidatorsChanged := c', lastHeightConsensusParamsChanged := pc' } := by
  obtain ⟨⟨nValSet, cv⟩, hvals, h⟩ := ok_of_bind h
  obtain ⟨⟨params, cp, version⟩, hparams, h⟩ := ok_of_bind h
  obtain ⟨c', hvals'⟩ : ∃ c', (Reassembled state vals c pc).nextValidatorSet header updates =
      .ok (nValSet, c') := by
    unfold State.nextValidatorSet at hvals ⊢
    split at hvals
    · rename_i hne
      exact ⟨cv, (if_pos hne).trans hvals⟩
    · rename_i hne
      obtain ⟨inc, hinc, hvals⟩ := ok_of_bind hvals
      cases hvals
      refine ⟨c, (if_neg hne).trans ?_⟩
      show (lift (state.nextValidators.incrementProposerPriority 1) >>= _) = _
      rw [bind_of_ok hinc]
      rfl
  obtain ⟨pc', hparams'⟩ : ∃ pc', (Reassembled state vals c pc).nextParams header
      resp.consensusParamUpdates = .ok (params, pc', version) := by
    unfold State.nextParams at hparams ⊢
    rw [reassembled_version hversion]
    split at hparams
    · cases hparams
      exact ⟨pc, rfl⟩
    · exact ⟨cp, hparams⟩
  cases h
  refine ⟨c', pc', ?_⟩
  unfold updateState
  rw [bind_of_ok hvals']
  show ((Reassembled state vals c pc).nextParams header resp.consensusParamUpdates >>= _) = _
  rw [bind_of_ok hparams']
  rfl

/-! ### In every run -/

/-- The state is that after a block, if it is above the initial height. -/
def Grown (env : Env) (app : Application σ) (genDoc : GenesisDoc) (w : World (AppState σ))
    (state : State) : Prop :=
  state.initialHeight < state.lastBlockHeight → ∃ w₀ state₀ d resp a', Synced env app genDoc w₀ state₀ ∧
    Committing env app w₀ state₀ d w.blocks resp a' state w.store

theorem Grown.congr {v : World (AppState σ)} (h : Grown env app genDoc w state)
    (hblocks : v.blocks = w.blocks) (hstore : v.store = w.store) : Grown env app genDoc v state := by
  unfold Grown
  rw [hblocks, hstore]
  exact h

/-- **Both stores are at one height**, in a run with crashes: they are as the last block has left
them. -/
theorem grown_of_run (hkeys : ∀ v ∈ genDoc.vals, decodesKey v.pubKey = true) {durable : σ}
    {now₀ : Time} {first node : Node σ}
    (hfirst : Node.next env app genDoc (.fresh durable) (.start now₀) = some first)
    (hrun : Steps (Node.next env app genDoc) (fun _ _ => True) first node)
    (hload : node.world.store.load env.toCrypto = .ok (some state))
    (hheight : node.world.blocks.height = state.lastBlockHeight) :
    Grown env app genDoc node.world state := by
  obtain ⟨w₀, s₀, rfl, hsynced, hzero⟩ := synced_of_first hkeys hfirst
  have hnone : Grown env app genDoc w₀ s₀ := fun habove =>
    absurd (hsynced.toChained.initialHeight_pos.trans habove.le) (by omega)
  have htracks : Tracks env app genDoc (Grown env app genDoc) node :=
    hrun.invariant (.up hnone hsynced ⟨rfl, rfl, rfl⟩) fun _ _ _ hi _ hn =>
      hi.next (fun _ h hc _ => ⟨_, _, _, _, _, h, hc⟩) hn
  have hloaded : ∀ {w : World (AppState σ)} {state₁}, Synced env app genDoc w state₁ →
      node.world.store = w.store → state₁ = state := fun h hstore =>
    Option.some.inj (Except.ok.inj (h.toChained.load.symm.trans (hstore ▸ hload)))
  cases htracks with
  | @up w v state₁ hclean h hsame =>
    obtain rfl := hloaded h hsame.store
    exact hclean.congr hsame.blocks hsame.store
  | @resting w v state₁ hclean h hrest =>
    obtain rfl := hloaded h hrest.store
    exact hclean.congr hrest.blocks hrest.store
  | @pending w v state₁ state' d blocks resp a' store' hclean h hc hp =>
    -- the block is in the block store only
    obtain rfl : state₁ = state := Option.some.inj (Except.ok.inj ((hp.load h).symm.trans hload))
    obtain ⟨-, hblocks, -⟩ := h.blocks_eq hc
    have hpos := h.toChained.nextHeight_pos
    have hnext : state₁.nextHeight ≠ state₁.lastBlockHeight := by
      unfold State.nextHeight at hpos ⊢
      split_ifs at hpos ⊢ <;> omega
    exact absurd (hblocks.symm.trans ((congrArg BlockStore.height hp.blocks_eq).symm.trans hheight))
      hnext

/-- **Rolling back after a block.** -/
theorem rollback_of_committing (h : Synced env app genDoc w state)
    (hc : Committing env app w state d blocks resp a' state' store')
    (hpos : state.lastBlockHeight ≠ 0) (removeBlock : Bool) : ∃ bs ss vals c pc,
      rollback env.toCrypto blocks store' removeBlock =
        ((bs, ss), .ok (state.lastBlockHeight, state.appHash)) ∧
      ss.load env.toCrypto = .ok (some (Reassembled state vals c pc)) ∧
      Alike state.lastValidators vals := by
  have h' := h.commit hc.valid hc.saved hc.applied 0
  have hload : store'.load env.toCrypto = .ok (some state') := h'.toChained.load
  have hheight : blocks.height = state'.lastBlockHeight := h'.toChained.blockHeight
  obtain ⟨vals, c, pc, heq, hst, halike, hle, -⟩ := rolledBack_of_committing h hc hpos
  have hone : 1 ≤ state.lastBlockHeight :=
    h.toChained.initialHeight_pos.trans (h.toChained.heights.resolve_left hpos)
  have hstorable : StorableState env.toCrypto (Reassembled state vals c pc) :=
    { h.toChained.storable with lastValidators := fun _ => hst, first := fun hnot => absurd hone hnot }
  obtain ⟨ss, hsave, hstate⟩ : ∃ ss, store'.save (Reassembled state vals c pc) = .ok ss ∧
      ss.state = some (stateProtoOf (Reassembled state vals c pc)) :=
    ⟨_, Store.save_eq hstorable hle, rfl⟩
  refine ⟨if removeBlock then blocks.deleteLatestBlock else blocks, ss, vals, c, pc, ?_,
    Store.load_save hstorable h.toChained.blockID hstate, halike⟩
  unfold rollback
  rw [hload]
  dsimp only
  rw [if_neg (by omega), if_neg (not_not.mpr hheight), heq]
  dsimp only
  rw [hsave]
  rfl

/-- **Rolling back undoes a block.** In every run of a node with crashes, above the initial height and
with both stores at one height, the last block is valid for the state that `Rollback` saves exactly if
it has the version of the parameters; with the same answer of the application it then leads to the same
state again, apart from the heights of the last changes. -/
theorem rollback_undoes (hkeys : ∀ v ∈ genDoc.vals, decodesKey v.pubKey = true) {durable : σ}
    {now₀ : Time} {first node : Node σ}
    (hfirst : Node.next env app genDoc (.fresh durable) (.start now₀) = some first)
    (hrun : Steps (Node.next env app genDoc) (fun _ _ => True) first node)
    (hload : node.world.store.load env.toCrypto = .ok (some state))
    (hheight : node.world.blocks.height = state.lastBlockHeight)
    (habove : state.initialHeight < state.lastBlockHeight) {blockID : BlockID}
    (hblock : node.world.blocks.blocks state.lastBlockHeight = some (block, blockID))
    {params : ConsensusParams}
    (hparams : node.world.store.loadConsensusParams state.lastBlockHeight = .ok params)
    (removeBlock : Bool) :
    ∃ bs ss previous resp updates,
      rollback env.toCrypto node.world.blocks node.world.store removeBlock =
        ((bs, ss), .ok (state.lastBlockHeight - 1, block.appHash)) ∧
      ss.load env.toCrypto = .ok (some previous) ∧ previous.lastBlockHeight = state.lastBlockHeight - 1 ∧
      (validateBlock env.toHashes previous block = .ok none ↔
        block.version.app = params.version.app) ∧
      node.world.store.loadLastFinalizeBlockResponse state.lastBlockHeight = .ok resp ∧
      pb2tmValidatorUpdates env.toCrypto resp.validatorUpdates = .ok updates ∧
      (block.version.app = params.version.app → ∃ next,
        updateState env.hashResults previous blockID block.toHeader resp updates = .ok next ∧
        state = { next with
          appHash := resp.appHash
          lastHeightValidatorsChanged := state.lastHeightValidatorsChanged
          lastHeightConsensusParamsChanged := state.lastHeightConsensusParamsChanged }) := by
  have hgrown := grown_of_run hkeys hfirst hrun hload hheight
  obtain ⟨w₀, state₀, d, resp, a', h, hc⟩ := hgrown habove
  have hheight₀ := h.toChained.height_of_valid hc.valid
  obtain ⟨hlast, hinitial, -⟩ := hc.applied.state_eq
  have hpos : state₀.lastBlockHeight ≠ 0 := by
    intro hzero
    have hnext : state₀.nextHeight = state₀.initialHeight := if_pos hzero
    omega
  have hnext : state₀.nextHeight = state₀.lastBlockHeight + 1 := if_neg hpos
  have hprevious : state₀.lastBlockHeight = state.lastBlockHeight - 1 := by omega
  -- the block, and the parameters of its height
  obtain ⟨-, hblocks, hsaved, -⟩ := h.blocks_eq hc
  rw [hblocks, ← hheight₀, ← hlast, hblock] at hsaved
  obtain ⟨rfl, rfl⟩ := Prod.mk.inj (Option.some.inj hsaved)
  obtain ⟨-, -, -, -, -, -, -, hparams₀⟩ := rolledBack_of_committing h hc hpos
  obtain rfl : state₀.consensusParams = params := Except.ok.inj (hparams₀.symm.trans hparams)
  have hfits := fits_of_validateBlock hc.valid
  rw [hfits.version]
  obtain ⟨bs, ss, vals, c, pc, hrollback, hssload, halike⟩ :=
    rollback_of_committing h hc hpos removeBlock
  have hresp := loadLastFinalizeBlockResponse_of_committing h hc
  obtain ⟨mid, hmid, rfl⟩ := hc.applied.next
  unfold nextState at hmid
  split at hmid
  · cases hmid
  obtain ⟨updates, hupdates, hmid⟩ := ok_of_bind hmid
  refine ⟨bs, ss, _, resp, updates, ?_, hssload, hprevious, ⟨fun hvalid => ?_, fun hversion =>
    validateBlock_reassembled halike hversion hc.valid⟩, hlast ▸ hresp, hupdates, fun hversion => ?_⟩
  · rw [hrollback, hprevious, hfits.appHash]
  · rw [← hfits.version, (fits_of_validateBlock hvalid).version]
    rfl
  · obtain ⟨c', pc', hupdate⟩ := updateState_reassembled vals c pc hversion hmid
    exact ⟨_, hupdate, rfl⟩

end

/-! ### The version of the application -/

/-- The first two blocks, with a version. -/
def twoBlocks (version : UInt64) : List Event :=
  [.commit ⟨{ (firstBlock 1).block with version := ⟨blockProtocol, version⟩ }, someID, someID_valid⟩,
    .commit ⟨{ secondBlock 10 [signatureOf 1 10 (List.replicate 20 1),
        signatureOf 2 99 (List.replicate 20 2)] with
      version := ⟨blockProtocol, version⟩
      appHash := [1] }, someID, someID_valid⟩]

/-- Whether the second block can be rolled back. -/
def secondUndoable : Bool :=
  match Node.next keyedEnv (counter 0 none) (genesisAt 1) (.fresh 0) (.start 0) with
  | none => false
  | some first => match exec (Node.next keyedEnv (counter 0 none) (genesisAt 1)) first (twoBlocks 0) with
    | some (.up w state) =>
      match w.blocks.blocks state.lastBlockHeight, w.store.loadConsensusParams state.lastBlockHeight,
        w.store.load keyedEnv.toCrypto with
      | some (block, id), .ok params, .ok (some state') => decide (id = someID ∧ state' = state ∧
          w.blocks.height = state.lastBlockHeight ∧ state.initialHeight = 1 ∧
          state.lastBlockHeight = 2 ∧ block.version.app = params.version.app)
      | _, _, _ => false
    | _ => false

/-- The second block of a chain is rolled back; the application reports the version of the parameters
of the document. -/
theorem rollback_undoes_second : ∃ first w state block,
    Node.next keyedEnv (counter 0 none) (genesisAt 1) (.fresh 0) (.start 0) = some first ∧
    exec (Node.next keyedEnv (counter 0 none) (genesisAt 1)) first (twoBlocks 0) =
      some (.up w state) ∧
    w.blocks.blocks 2 = some (block, someID) ∧
    ∃ bs ss previous, rollback keyedEnv.toCrypto w.blocks w.store true =
        ((bs, ss), .ok (1, block.appHash)) ∧
      ss.load keyedEnv.toCrypto = .ok (some previous) ∧
      validateBlock keyedHashes previous block = .ok none := by
  have hrun : secondUndoable = true := by decide +kernel
  unfold secondUndoable at hrun
  split at hrun
  · cases hrun
  rename_i first hfirst
  split at hrun
  · rename_i w state hexec
    split at hrun
    · rename_i block id params state' hblock hparams hload
      obtain ⟨rfl, rfl, hheight, hinitial, hlast, hversion⟩ := of_decide_eq_true hrun
      obtain ⟨bs, ss, previous, -, -, hrollback, hssload, -, hvalid, -⟩ :=
        rollback_undoes (by decide) hfirst (steps_of_exec hexec) hload hheight (by omega) hblock
          hparams true
      rw [hlast] at hblock hrollback
      exact ⟨first, w, state', block, hfirst, hexec, hblock, bs, ss, previous, hrollback, hssload,
        hvalid.mpr hversion⟩
    · cases hrun
  · cases hrun

/-- What `validateBlock` says of the last block after it was rolled back. -/
def afterRollback (w : World (AppState ℕ)) (state : State) : Option (Except Fault (Option InvalidBlock)) :=
  match rollback keyedEnv.toCrypto w.blocks w.store false, w.blocks.blocks state.lastBlockHeight with
  | ((_, ss), .ok _), some (block, _) =>
    match ss.load keyedEnv.toCrypto with
    | .ok (some previous) => some (validateBlock keyedHashes previous block)
    | _ => none
  | _, _ => none

/-- **A block that is not valid any more.** The application reports version 5, and `InitChain` returns
no parameters: the version of the parameters is still 0, to which the state is set back. -/
theorem rollback_rejects :
    ((Node.next keyedEnv (counter 5 none) (genesisAt 1) (.fresh 0) (.start 0)).bind fun first =>
      (exec (Node.next keyedEnv (counter 5 none) (genesisAt 1)) first (twoBlocks 5)).bind fun node =>
        match node with
        | .up w state => afterRollback w state
        | .down _ => none) =
      some (.ok (some (.wrongVersion ⟨blockProtocol, 0⟩ ⟨blockProtocol, 5⟩))) := by
  decide +kernel

end CometBFT.Sm
