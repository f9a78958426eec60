import CometBFT.State.Execution
import CometBFT.State.History

/-!
# The stores of a node

What the block store and the state store have while a node commits blocks. The next state comes from
the block and the answer of the application, whose validator updates are decoded first; so each block
is a step of a history of states, and what is known of those carries over.

## Main results

* `Applied.decided` — a block that is applied is a step of the history
* `Chained.commit` — what the two stores have, one block further
-/

namespace CometBFT.Sm

open CometBFT.Types Function

/-! ### A block as a step of a history -/

variable {crypto : Crypto} {updates : List ValidatorUpdate}

theorem keyed_of_pb2tm {vals : List Validator} (h : pb2tmValidatorUpdates crypto updates = .ok vals) :
    ∀ v ∈ vals, Keyed crypto v := by
  intro v hv
  obtain ⟨i, hi⟩ := List.getElem?_of_mem hv
  obtain ⟨u, -, hu⟩ := exists_getElem?_of_mapM h hi
  split_ifs at hu with hkey
  cases hu
  exact keyed_newValidator hkey u.power

theorem pb2tm_eq_nil {vals : List Validator} (h : pb2tmValidatorUpdates crypto updates = .ok vals)
    (hne : updates ≠ []) : vals ≠ [] :=
  mapM_ne_nil h hne

section

variable {τ : Type} {env : Env} {conn : Conn τ} {store store' : Store} {a a' : τ}
  {state state' : State} {blockID : BlockID} {block : Block} {resp : FinalizeBlockResponse}

/-- **A block that is applied** is decided, with its answer, in the history of the states. -/
theorem Applied.decided (h : Applied env conn store a state blockID block resp a' state' store')
    (hheight : block.height = state.nextHeight) (past : List State) :
    ∃ d : Decision env.toCrypto, d.blockID = blockID ∧ d.header = block.toHeader ∧ d.resp = resp ∧
      pb2tmValidatorUpdates env.toCrypto resp.validatorUpdates = .ok d.updates ∧
      Updated env.hashResults state d state' ∧ History.next env.hashResults ⟨env.answered store block.height resp, state, past⟩ d =
        some ⟨store', state', state :: past⟩ := by
  obtain ⟨mid, hmid, rfl⟩ := h.next
  unfold nextState at hmid
  split at hmid
  · cases hmid
  obtain ⟨updates, hupdates, hmid⟩ := ok_of_bind hmid
  let d : Decision env.toCrypto := ⟨blockID, block.toHeader, resp, updates, keyed_of_pb2tm hupdates⟩
  have hstate : History.nextState env.hashResults state d =
      .ok { mid with appHash := resp.appHash } := by
    unfold History.nextState
    rw [bind_of_ok hmid]
    rfl
  refine ⟨d, rfl, rfl, rfl, hupdates, updated_of_nextState hstate, ?_⟩
  unfold History.next
  rw [if_pos hheight, hstate]
  dsimp only
  rw [h.save]

theorem Applied.state_eq (h : Applied env conn store a state blockID block resp a' state' store') :
    state'.lastBlockHeight = block.height ∧ state'.initialHeight = state.initialHeight ∧
      state'.appHash = resp.appHash := by
  obtain ⟨mid, hmid, rfl⟩ := h.next
  unfold nextState at hmid
  split at hmid
  · cases hmid
  obtain ⟨updates, -, hmid⟩ := ok_of_bind hmid
  obtain ⟨⟨vals, c⟩, -, hmid⟩ := ok_of_bind hmid
  obtain ⟨⟨params, pc, version⟩, -, hmid⟩ := ok_of_bind hmid
  cases hmid
  exact ⟨rfl, rfl, rfl⟩

end

/-! ### What the stores have -/

/-- Since the set was stored, nothing but the priorities and the proposer has changed. -/
def Turned (base : ValidatorSet) (_ : ℤ) (vals : ValidatorSet) : Prop := Rotated base vals

/-- Only the validators of the store matter. -/
theorem Consistent.congr {rel : ValidatorSet → ℤ → ValidatorSet → Prop} {base : ℤ}
    {store store' : Store} {last : State} {past : List State}
    (h : Consistent rel crypto base ⟨store, last, past⟩)
    (hsame : store'.validators = store.validators) :
    Consistent rel crypto base ⟨store', last, past⟩ where
  base_pos := h.base_pos
  base_le := h.base_le
  validators := h.validators
  recorded height hlo hhi := by
    obtain ⟨vals, c, hused, hrec⟩ := h.recorded height hlo hhi
    exact ⟨vals, c, hused, hrec.frame fun k _ => congrFun hsame k⟩
  nextRecorded := h.nextRecorded.frame fun k _ => congrFun hsame k

theorem Consistent.next_turned {hashResults : List TxResult → Bytes} {base : ℤ}
    {hist hist' : History} (h : Consistent Turned crypto base hist) {d : Decision crypto}
    (hn : hist.next hashResults d = some hist') : Consistent Turned crypto base hist' :=
  h.next hn (rotated_of_incrementProposerPriority h.nextRecorded.live.nodup)
    fun _ _ _ _ _ _ hinc hrel =>
      hrel.trans (rotated_of_incrementProposerPriority h.nextRecorded.live.nodup hinc)

/-- The two stores have the state, the blocks and what was saved for each height. -/
structure Chained (env : Env) (bs : BlockStore) (store : Store) (state : State) : Prop where
  stored : store.state = some (stateProtoOf state)
  storable : StorableState env.toCrypto state
  blockID : state.lastBlockID.validateBasic = true
  version : state.version = ⟨⟨blockProtocol, state.version.consensus.app⟩, cmtSemVer⟩
  heights : state.lastBlockHeight = 0 ∨ state.initialHeight ≤ state.lastBlockHeight
  history : ∃ past, Consistent Turned env.toCrypto state.initialHeight ⟨store, state, past⟩ ∧
    (state.lastBlockHeight ≠ 0 →
      History.used ⟨store, state, past⟩ state.lastBlockHeight = some state.lastValidators)
  first : state.lastBlockHeight = 0 → store.validators state.initialHeight =
    some (validatorsEntry state.initialHeight state.initialHeight state.validators)
  params : ParamsRecorded store state.nextHeight state.lastHeightConsensusParamsChanged
    state.consensusParams
  blockHeight : bs.height = state.lastBlockHeight
  base : bs.base = if state.lastBlockHeight = 0 then 0 else state.initialHeight
  lastBlock : state.lastBlockHeight ≠ 0 → ∃ block,
    bs.blocks state.lastBlockHeight = some (block, state.lastBlockID) ∧
      block.height = state.lastBlockHeight ∧ block.time = state.lastBlockTime

namespace Chained

variable {env : Env} {bs : BlockStore} {store : Store} {state : State} {resp : FinalizeBlockResponse}

section

variable (h : Chained env bs store state)

include h

theorem initialHeight_pos : 1 ≤ state.initialHeight := by
  obtain ⟨past, hcons, -⟩ := h.history
  exact hcons.base_pos

theorem initialHeight_le : state.initialHeight ≤ state.nextHeight := by
  obtain ⟨past, hcons, -⟩ := h.history
  exact hcons.base_le

theorem nextHeight_pos : 1 ≤ state.nextHeight :=
  h.initialHeight_pos.trans h.initialHeight_le

theorem load : store.load env.toCrypto = .ok (some state) :=
  Store.load_save h.storable h.blockID h.stored

/-- What is saved already is saved again. -/
theorem save_self : store.save state = .ok store := by
  obtain ⟨past, hcons, -⟩ := h.history
  have hfirst : store.withFirst state = store.validators := by
    unfold Store.withFirst
    split
    · rw [← h.first ‹_›, update_eq_self]
    · rfl
  have hnext := hcons.nextRecorded.entry
  dsimp only at hnext
  rw [Store.save_eq h.storable hcons.nextRecorded.le, hfirst, ← hnext, ← h.params.entry, ← h.stored,
    update_eq_self, update_eq_self]

/-- Answers of the application do not matter. -/
theorem answered (height : ℤ) (resp : FinalizeBlockResponse) :
    Chained env bs (env.answered store height resp) state where
  __ := h
  history := by
    obtain ⟨past, hcons, hused⟩ := h.history
    exact ⟨past, hcons.congr rfl, hused⟩
  params := h.params.frame fun _ _ => rfl

end

/-- **The first state**, saved. -/
theorem of_founded {store₀ : Store} (h : Founded env.toCrypto state)
    (hid : state.lastBlockID.validateBasic = true)
    (hversion : state.version = ⟨⟨blockProtocol, state.version.consensus.app⟩, cmtSemVer⟩)
    (hsave : store₀.save state = .ok store) : Chained env {} store state := by
  have hcons : Consistent Turned env.toCrypto state.initialHeight ⟨store, state, []⟩ :=
    h.consistent hsave (rotated_of_incrementProposerPriority h.validators.nodup h.increment)
  refine ⟨?_, h.storable, hid, hversion, .inl h.lastBlockHeight,
    ⟨[], hcons, fun hne => absurd h.lastBlockHeight hne⟩, fun _ => h.first_entry hsave,
    h.paramsRecorded hsave, h.lastBlockHeight.symm, (if_pos h.lastBlockHeight).symm, fun hne => absurd h.lastBlockHeight hne⟩
  rw [Store.save_eq h.storable h.validatorsChanged_le] at hsave
  cases hsave
  rfl

end Chained

/-! ### One block further -/

section Validated

variable {p : Hashes} {state : State} {block : Block}

/-- What a valid block has in common with the state. -/
structure Fits (state : State) (block : Block) : Prop where
  version : block.version = state.version.consensus
  height : state.lastBlockHeight = 0 ∨ 0 < state.lastBlockHeight → block.height = state.nextHeight
  lastBlockID : block.lastBlockID = state.lastBlockID
  appHash : block.appHash = state.appHash
  lastResultsHash : block.lastResultsHash = state.lastResultsHash

theorem fits_of_validateBasicInfo (h : validateBasicInfo p state block = none) :
    Fits state block := by
  unfold validateBasicInfo at h
  obtain ⟨hversion, h⟩ := of_check_eq_none h
  obtain ⟨-, h⟩ := of_check_eq_none h
  obtain ⟨hfirst, h⟩ := of_check_eq_none h
  obtain ⟨hheight, h⟩ := of_check_eq_none h
  obtain ⟨hid, h⟩ := of_check_eq_none h
  obtain ⟨happ, h⟩ := of_check_eq_none h
  obtain ⟨-, h⟩ := of_check_eq_none h
  obtain ⟨hresults, -⟩ := of_check_eq_none h
  obtain ⟨happver, hblockver⟩ := not_or.mp hversion
  refine ⟨?_, fun hor => ?_, not_not.mp hid, not_not.mp happ, not_not.mp hresults⟩
  · exact congrArg₂ Version.mk (not_not.mp hblockver) (not_not.mp happver)
  · unfold State.nextHeight
    rcases hor with hzero | hpos
    · rw [if_pos hzero]
      exact not_not.mp fun hne => hfirst ⟨hzero, hne⟩
    · rw [if_neg hpos.ne']
      exact not_not.mp fun hne => hheight ⟨hpos, hne⟩

theorem fits_of_validateBlock (h : validateBlock p state block = .ok none) : Fits state block := by
  obtain ⟨lastCommit, -, -, hinfo, -⟩ := validateBlock_eq_none.mp h
  exact fits_of_validateBasicInfo hinfo

end Validated

namespace Chained

variable {τ : Type} {env : Env} {conn : Conn τ} {w : World τ} {store' : Store} {a a' : τ}
  {state state' : State} {blockID : BlockID} {block : Block} {resp : FinalizeBlockResponse}

section

variable (h : Chained env w.blocks w.store state)

include h

theorem height_of_valid (hvalid : validateBlock env.toHashes state block = .ok none) :
    block.height = state.nextHeight := by
  refine (fits_of_validateBlock hvalid).height ?_
  have := h.initialHeight_pos
  rcases h.heights with hzero | hle
  · exact .inl hzero
  · exact .inr (by omega)

/-- The next block is saved. -/
theorem saveDecided_eq (hheight : block.height = state.nextHeight) :
    saveDecided w blockID block = .ok {
      base := state.initialHeight
      height := block.height
      blocks := update w.blocks.blocks block.height (some (block, blockID)) } := by
  have hpos := h.initialHeight_pos
  have hbase := h.base
  have hbs := h.blockHeight
  have hheights := h.heights
  unfold State.nextHeight at hheight
  unfold saveDecided BlockStore.saveBlock
  by_cases hzero : state.lastBlockHeight = 0
  · rw [if_pos hzero] at hheight hbase
    rw [if_pos (by omega), if_neg (by omega), if_pos hbase, hheight]
  · rw [if_neg hzero] at hheight hbase
    rw [if_pos (by omega), if_neg (by omega), if_neg (by omega), hbase]

theorem commit_version {d : Decision env.toCrypto} (hupd : Updated env.hashResults state d state') :
    state'.version = ⟨⟨blockProtocol, state'.version.consensus.app⟩, cmtSemVer⟩ := by
  obtain ⟨-, -, hversion⟩ | ⟨_, -, -, -, hversion⟩ := State.nextParams_cases hupd.params
  · rw [hversion]
    exact h.version
  · rw [hversion, h.version]

/-- **One block further.** -/
theorem commit (hid : blockID.validateBasic = true)
    (hvalid : validateBlock env.toHashes state block = .ok none) {blocks : BlockStore}
    (hblocks : saveDecided w blockID block = .ok blocks)
    (happlied : Applied env conn w.store a state blockID block resp a' state' store') :
    Chained env blocks store' state' := by
  have hheight := h.height_of_valid hvalid
  have hpos := h.nextHeight_pos
  rw [h.saveDecided_eq hheight] at hblocks
  cases hblocks
  obtain ⟨past, hcons, hused⟩ := h.history
  obtain ⟨d, rfl, hheader, hresp, -, hupd, hnext⟩ := happlied.decided hheight past
  replace hcons : Consistent Turned env.toCrypto state.initialHeight
      ⟨env.answered w.store block.height resp, state, past⟩ := hcons.congr rfl
  have hsaved := hcons.saved hnext
  have hcons' := hcons.next_turned hnext
  have hdheight : d.header.height = state.nextHeight := by
    rw [hheader]
    exact hheight
  obtain ⟨hnextHeight, hstorable, -⟩ := hcons.storable hdheight hupd
  have hrest := hupd.rest
  obtain ⟨hlast, hinitial, -⟩ := happlied.state_eq
  have hlastID : state'.lastBlockID = d.blockID := congrArg State.lastBlockID hrest
  have htime : state'.lastBlockTime = block.time :=
    (congrArg State.lastBlockTime hrest).trans (congrArg Header.time hheader)
  have hlastVals : state'.lastValidators = state.validators := congrArg State.lastValidators hrest
  refine ⟨congrArg Store.state hsaved.store, hstorable, hlastID ▸ hid, h.commit_version hupd, ?_, ?_,
    fun hzero => absurd hzero (by omega),
    hsaved.paramsRecorded (h.params.frame fun _ _ => rfl),
    hlast.symm, ?_, fun _ => ⟨block, ?_, hlast.symm, htime.symm⟩⟩
  · rw [hinitial, hlast, hheight]
    exact .inr hcons.base_le
  · refine ⟨state :: past, hinitial ▸ hcons', fun _ => ?_⟩
    have hsame : History.used ⟨store', state', state :: past⟩ state.nextHeight =
        History.used ⟨env.answered w.store block.height resp, state, past⟩ state.nextHeight :=
      History.used_of_le rfl hsaved.nextHeight le_rfl
    rw [hlast, hheight, hlastVals, hsame]
    exact History.used_last _
  · rw [if_neg (by omega), hinitial]
  · show update w.blocks.blocks _ _ _ = _
    rw [hlast, hlastID, update_self]

end

end Chained

end CometBFT.Sm
