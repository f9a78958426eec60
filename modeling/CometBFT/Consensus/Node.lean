import CometBFT.Consensus.Replay
import CometBFT.State.Chain

/-!
# A node and its application

A node starts with the handshake, commits blocks, and can crash after each step that writes to disk,
also while it starts. What was not on disk is lost: the state of the node, and what the application
has executed since its last `Commit`.

## Main results

* `initState_again` — `InitChain` once more changes nothing
* `synced_of_first` — what holds after the first start
* `Synced.commit` — and after every block
-/

namespace CometBFT.Consensus

open CometBFT.Types Sm

variable {σ : Type} (env : Env) (app : Application σ) (genDoc : GenesisDoc)

/-! ### Runs of a node -/

/-- A block that was decided. The precommits for it have passed `ValidateBasic`, and with them its
id. -/
structure Decided where
  block : Block
  blockID : BlockID
  valid : blockID.validateBasic = true

inductive Node (σ : Type) where
  | up (world : World (AppState σ)) (state : State)
  | down (world : World (AppState σ))

/-- What is on disk, and the application. -/
def Node.world : Node σ → World (AppState σ)
  | .up w _ => w
  | .down w => w

inductive Event where
  /-- A block is committed. -/
  | commit (d : Decided)
  /-- The process dies while a block is committed, after the `k`-th of the steps that write. -/
  | crash (d : Decided) (k : ℕ)
  /-- The process dies between two blocks. -/
  | stop
  | start (now : Time)
  /-- The process dies while it starts, after the `k`-th of the steps that write. -/
  | crashAgain (now : Time) (k : ℕ)

/-- A node whose application has not seen a block. -/
def Node.fresh (durable : σ) : Node σ := .down { app := { durable := durable, working := durable } }

/-- After the handshake the state is loaded again (`createAndStartConsensus`). -/
def Node.started (out : Traced (AppState σ) Bytes) : Option (Node σ) :=
  match out.result, out.world.store.load env.toCrypto with
  | .ok _, .ok (some state) => some (.up out.world state)
  | _, _ => none

def Node.next : Node σ → Event → Option (Node σ)
  | .up w state, .commit d =>
    let out := finalizeCommit env app.conn w state d.blockID d.block
    match out.result with
    | .ok state' => some (.up out.world state')
    | .error _ => none
  | .up w state, .crash d k =>
    let out := finalizeCommit env app.conn w state d.blockID d.block
    match out.result with
    | .ok _ => out.trace[k]?.map .down
    | .error _ => none
  | .up w _, .stop => some (.down w)
  | .down w, .start now => Node.started env (start env app genDoc now w)
  | .down w, .crashAgain now k => (start env app genDoc now w).trace[k]?.map .down
  | _, _ => none

/-! ### InitChain -/

section InitChain

variable {env genDoc} {state state' : State} {res : InitChainResponse}

variable {crypto : Crypto} {updates : List ValidatorUpdate}

theorem withValidators_eq_ok (h : withValidators genDoc crypto state updates = .ok state') :
    (∃ vals v n, updates ≠ [] ∧ pb2tmValidatorUpdates crypto updates = .ok vals ∧
        initialValidatorSets vals = .ok (v, n) ∧
        state' = { state with validators := v, nextValidators := n }) ∨
      updates = [] ∧ genDoc.vals ≠ [] ∧ state' = state := by
  unfold withValidators at h
  split_ifs at h with hne hnil
  · obtain ⟨vals, hvals, h⟩ := ok_of_bind h
    obtain ⟨⟨v, n⟩, hsets, h⟩ := ok_of_bind h
    exact .inl ⟨vals, v, n, hne, hvals, hsets, (Except.ok.inj h).symm⟩
  · exact .inr ⟨not_not.mp hne, hnil, (Except.ok.inj h).symm⟩

/-- What the application does not change in the first state, apart from the validators. -/
def core (state : State) : State :=
  { state with
    version := ⟨⟨0, 0⟩, ""⟩
    consensusParams := defaultConsensusParams
    lastResultsHash := []
    appHash := [] }

theorem core_withAppVersion (state : State) (v : UInt64) :
    core (withAppVersion state v) = core state := by
  unfold withAppVersion
  split_ifs <;> rfl

theorem core_withResponse (env : Env) (state : State) (res : InitChainResponse) :
    core (withResponse env state res) = core state := by
  unfold withResponse
  cases res.consensusParams <;> rfl

theorem withAppVersion_of_zero (hzero : state.lastBlockHeight = 0) (v : UInt64) :
    withAppVersion state v = { state with version := { state.version with
      consensus := { state.version.consensus with app := v } } } :=
  if_pos hzero

/-- The validators do not depend on the rest of the state. -/
theorem withValidators_of_eq {mid state₂ : State}
    (h : withValidators genDoc crypto state updates = .ok mid)
    (hvals : state₂.validators = mid.validators)
    (hnext : state₂.nextValidators = mid.nextValidators) :
    withValidators genDoc crypto state₂ updates = .ok state₂ := by
  unfold withValidators
  rcases withValidators_eq_ok h with ⟨vals, v, n, hne, hvs, hsets, rfl⟩ | ⟨hnil, hne, -⟩
  · rw [if_pos hne, bind_of_ok hvs, bind_of_ok hsets]
    dsimp only at hvals hnext ⊢
    rw [← hvals, ← hnext]
    rfl
  · rw [if_neg (not_not.mpr hnil), if_neg hne]

/-- The version that the parameters have replaces the one that `Info` reports. -/
theorem withResponse_again (hzero : state.lastBlockHeight = 0) :
    withResponse env (withAppVersion (withResponse env state res) state.version.consensus.app) res =
      withResponse env state res := by
  have hhash : (if res.appHash ≠ [] then res.appHash else
      if res.appHash ≠ [] then res.appHash else state.appHash) =
        if res.appHash ≠ [] then res.appHash else state.appHash := by
    split_ifs <;> rfl
  unfold withResponse
  cases res.consensusParams with
  | none =>
    rw [withAppVersion_of_zero (by exact hzero)]
    dsimp only [withParams]
    rw [hhash]
  | some updates =>
    rw [withAppVersion_of_zero (by exact hzero)]
    dsimp only [withParams]
    rw [hhash, ConsensusParams.update_update_self]

/-- **`InitChain` once more** gives the same state, if the application answers as before. -/
theorem initState_again (hzero : state.lastBlockHeight = 0) {v : UInt64}
    (h : initState env genDoc (withAppVersion state v) res = .ok state') :
    initState env genDoc (withAppVersion state' v) res = .ok state' := by
  obtain ⟨mid, hmid, h⟩ := ok_of_bind h
  obtain rfl := Except.ok.inj h
  obtain ⟨hmid0, happ⟩ : mid.lastBlockHeight = 0 ∧ mid.version.consensus.app = v := by
    rw [withAppVersion_of_zero hzero] at hmid
    rcases withValidators_eq_ok hmid with ⟨vals, v, n, -, -, -, rfl⟩ | ⟨-, -, rfl⟩
    · exact ⟨hzero, rfl⟩
    · exact ⟨hzero, rfl⟩
  have hcore : core (withAppVersion (withResponse env mid res) v) = core mid :=
    (core_withAppVersion _ v).trans (core_withResponse env mid res)
  have hvals : (withAppVersion (withResponse env mid res) v).validators = mid.validators :=
    (congrArg State.validators hcore :)
  have hnext : (withAppVersion (withResponse env mid res) v).nextValidators = mid.nextValidators :=
    (congrArg State.nextValidators hcore :)
  unfold initState
  rw [bind_of_ok (withValidators_of_eq hmid hvals hnext), ← happ]
  exact congrArg Except.ok (withResponse_again hmid0)

/-- The first state of a chain depends on neither the parameters nor the hashes. -/
theorem founded_of_core (h : Founded crypto state) (hcore : core state' = core state) :
    Founded crypto state' := by
  have hinitial : state'.initialHeight = state.initialHeight := (congrArg State.initialHeight hcore :)
  have hvals : state'.validators = state.validators :=
    (congrArg State.validators hcore :)
  have hnext : state'.nextValidators = state.nextValidators :=
    (congrArg State.nextValidators hcore :)
  exact ⟨hinitial ▸ h.initialHeight, (congrArg State.lastBlockHeight hcore).trans h.lastBlockHeight,
    hvals ▸ h.validators, hnext ▸ h.nextValidators, by rw [hvals, hnext, h.increment],
    h.lastValidators.trans (congrArg Except.ok (congrArg State.lastValidators hcore).symm),
    (congrArg State.lastHeightValidatorsChanged hcore).trans (h.validatorsChanged.trans hinitial.symm),
    (congrArg State.lastHeightConsensusParamsChanged hcore).trans
      (h.paramsChanged.trans hinitial.symm)⟩

variable {app : Application σ} {w : World (AppState σ)}

/-- What `InitChain` does before the first block. -/
theorem initChain_eq (hzero : state.lastBlockHeight = 0) {req : InitChainRequest}
    (hreq : initChainRequest genDoc env.toCrypto = .ok req)
    (hinit : initState env genDoc state (app.initChain req w.app.working).1 = .ok state')
    {store : Store} (hsave : w.store.save state' = .ok store) :
    initChain env app genDoc w state =
      ⟨⟨w.blocks, w.wal, store, { w.app with working := (app.initChain req w.app.working).2 }⟩,
        [⟨w.blocks, w.wal, store, { w.app with working := (app.initChain req w.app.working).2 }⟩],
        .ok (state', (app.initChain req w.app.working).1.appHash)⟩ := by
  unfold initChain
  rw [hreq]
  dsimp only
  rw [if_pos hzero, hinit]
  dsimp only
  rw [hsave]

theorem initChain_eq_ok (hzero : state.lastBlockHeight = 0) {hash : Bytes}
    (h : (initChain env app genDoc w state).result = .ok (state', hash)) :
    ∃ req store, initChainRequest genDoc env.toCrypto = .ok req ∧
      initState env genDoc state (app.initChain req w.app.working).1 = .ok state' ∧
      w.store.save state' = .ok store ∧ (app.initChain req w.app.working).1.appHash = hash := by
  unfold initChain at h
  split at h
  · cases h
  rename_i req hreq
  dsimp only at h
  rw [if_pos hzero] at h
  split at h
  · cases h
  rename_i mid hmid
  split at h
  · cases h
  rename_i store hstore
  cases h
  exact ⟨req, store, hreq, hmid, hstore, rfl⟩

end InitChain

/-! ### A node that is in step with its application -/

/-- The heights from `lo` to `hi`. -/
def heightRange (lo hi : ℤ) : List ℤ := (List.range (hi + 1 - lo).toNat).map fun i : ℕ => lo + i

theorem heightRange_of_lt {lo hi : ℤ} (h : hi < lo) : heightRange lo hi = [] := by
  unfold heightRange
  rw [Int.toNat_of_nonpos (by omega)]
  rfl

theorem heightRange_succ {lo hi : ℤ} (h : lo ≤ hi + 1) :
    heightRange lo (hi + 1) = heightRange lo hi ++ [hi + 1] := by
  unfold heightRange
  have hlen : (hi + 1 + 1 - lo).toNat = (hi + 1 - lo).toNat + 1 := by omega
  rw [hlen, List.range_succ, List.map_append, List.map_singleton]
  congr 2
  omega

/-- Before the first block: the application has been initialized, and would be again with the same
result. -/
def Begun (a : AppState σ) (state : State) : Prop :=
  ∃ req, initChainRequest genDoc env.toCrypto = .ok req ∧
    a = { a.restart with working := (app.initChain req a.durable).2 } ∧
    initState env genDoc (withAppVersion state (app.appVersion a.durable))
      (app.initChain req a.durable).1 = .ok state ∧
    (app.initChain req a.durable).1.appHash = state.appHash

/-- The node and the application are at the same height. -/
structure Synced (w : World (AppState σ)) (state : State) : Prop extends
    Chained env w.blocks w.store state where
  appHeight : w.app.height = state.lastBlockHeight
  begun : state.lastBlockHeight = 0 → Begun env app genDoc w.app state
  running : state.lastBlockHeight ≠ 0 → w.app.restart = w.app ∧ w.app.hash = state.appHash
  log : w.app.log = heightRange state.initialHeight state.lastBlockHeight

section Synced

variable {env app genDoc} {w : World (AppState σ)} {state state' : State}

theorem started_eq_some {out : Traced (AppState σ) Bytes} {node : Node σ}
    (h : Node.started env out = some node) : ∃ hash state, out.result = .ok hash ∧
      out.world.store.load env.toCrypto = .ok (some state) ∧ node = .up out.world state := by
  unfold Node.started at h
  split at h
  · rename_i hash state hresult hload
    exact ⟨hash, state, hresult, hload, (Option.some.inj h).symm⟩
  · cases h

theorem handshake_of_zero (h : w.app.height = 0) : handshake env app genDoc w state =
    (initChain env app genDoc w (withAppVersion state (app.appVersion w.app.durable))).andThen
      fun w (state, appHash) => replayStored env app genDoc 0 w state appHash := by
  unfold handshake replay
  rw [h, if_neg (lt_irrefl 0), if_pos rfl]

theorem replayStored_of_empty {appBlockHeight : ℤ} {appHash : Bytes} (h : w.blocks.height = 0) :
    replayStored env app genDoc appBlockHeight w state appHash =
      { world := w, result := assertAppHash appHash state } :=
  if_pos h

theorem assertAppHash_eq_ok {appHash hash : Bytes} (h : assertAppHash appHash state = .ok hash) :
    appHash = state.appHash := by
  unfold assertAppHash at h
  split_ifs at h with heq
  exact heq

theorem atGenesis_withAppVersion (h : AtGenesis state) (v : UInt64) :
    AtGenesis (withAppVersion state v) := by
  rw [withAppVersion_of_zero h.lastBlockHeight]
  exact { h with version := by rw [h.version] }

theorem atGenesis_withResponse (h : AtGenesis state) (env : Env) (res : InitChainResponse) :
    AtGenesis (withResponse env state res) := by
  unfold withResponse
  cases res.consensusParams with
  | none => exact { h with }
  | some updates => exact { h with version := by dsimp only [withParams]; rw [h.version] }

/-- The first state of a chain, whether its validators are those of the application or of the
document. -/
theorem founded_of_initState {now : Time} {v : UInt64} {res : InitChainResponse}
    (hgen : makeGenesisState env.toCrypto now genDoc = .ok state)
    (hkeys : ∀ v ∈ genDoc.vals, decodesKey v.pubKey = true)
    (h : initState env genDoc (withAppVersion state v) res = .ok state') :
    AtGenesis state' ∧ Founded env.toCrypto state' := by
  have hgenesis := atGenesis_withAppVersion (atGenesis_of_makeGenesisState hgen) v
  obtain ⟨mid, hmid, h⟩ := ok_of_bind h
  obtain rfl := Except.ok.inj h
  have hcore := core_withResponse env mid res
  rcases withValidators_eq_ok hmid with ⟨vals, v, n, hne, hvals, hsets, rfl⟩ | ⟨-, hne, rfl⟩
  · replace hmid : AtGenesis
        { withAppVersion state _ with validators := v, nextValidators := n } := { hgenesis with }
    exact ⟨atGenesis_withResponse hmid env res, founded_of_core
      (hmid.founded (pb2tm_eq_nil hvals hne) (keyed_of_pb2tm hvals) hsets) hcore⟩
  · exact ⟨atGenesis_withResponse hgenesis env res, founded_of_core (founded_of_core
      (founded_of_makeGenesisState hgen hne hkeys) (core_withAppVersion state v)) hcore⟩

/-- **After the first start** the node is in step with its application. -/
theorem synced_of_first (hkeys : ∀ v ∈ genDoc.vals, decodesKey v.pubKey = true) {now : Time}
    {durable : σ} {node : Node σ}
    (h : Node.next env app genDoc (.fresh durable) (.start now) = some node) :
    ∃ w state, node = .up w state ∧ Synced env app genDoc w state ∧ state.lastBlockHeight = 0 := by
  obtain ⟨hash, state, hresult, hload, rfl⟩ := started_eq_some h
  cases hgen : makeGenesisState env.toCrypto now genDoc with
  | error e =>
    unfold start loadFromDBOrGenesisDoc at hresult
    dsimp only [Store.load] at hresult
    rw [hgen] at hresult
    cases hresult
  | ok genesis =>
    have hzero := (atGenesis_of_makeGenesisState hgen).lastBlockHeight
    have hstart : start env app genDoc now { app := { durable := durable, working := durable } } =
        handshake env app genDoc { app := { durable := durable, working := durable } } genesis := by
      unfold start loadFromDBOrGenesisDoc
      dsimp only [Store.load]
      rw [hgen]
      rfl
    rw [hstart, handshake_of_zero rfl] at hresult hload ⊢
    obtain ⟨⟨state', appHash⟩, hinit, -⟩ := Traced.exists_of_andThen hresult
    have hzero' : (withAppVersion genesis (app.appVersion durable)).lastBlockHeight = 0 := by
      rw [withAppVersion_of_zero hzero]
      exact hzero
    obtain ⟨req, store, hreq, hstate, hsave, rfl⟩ := initChain_eq_ok hzero' hinit
    obtain ⟨hgenesis, hfounded⟩ := founded_of_initState hgen hkeys hstate
    rw [initChain_eq hzero' hreq hstate hsave, Traced.andThen_of_ok rfl] at hresult hload ⊢
    dsimp only at hresult hload ⊢
    rw [replayStored_of_empty rfl] at hresult hload ⊢
    have hhash := assertAppHash_eq_ok hresult
    have hchained : Chained env {} store state' :=
      .of_founded hfounded (by rw [hgenesis.lastBlockID]; decide) hgenesis.version hsave
    obtain rfl : state' = state :=
      Option.some.inj (Except.ok.inj (hchained.load.symm.trans hload))
    have hlast := hgenesis.lastBlockHeight
    refine ⟨_, _, rfl, ⟨hchained, hlast.symm, fun _ => ⟨req, hreq, rfl, ?_, hhash⟩,
      fun hne => absurd hlast hne, ?_⟩, hlast⟩
    · exact initState_again hzero hstate
    · exact (heightRange_of_lt (by rw [hlast]; exact hgenesis.initialHeight)).symm

variable {resp : FinalizeBlockResponse}

/-- What the application does when it executes a block. -/
theorem conn_finalizeBlock {req : FinalizeBlockRequest} {a a' : AppState σ}
    (h : app.conn.finalizeBlock req a = (resp, a')) :
    a'.restart = a.restart ∧ a'.executed = (req.height, resp.appHash) ∧ a'.log = a.log := by
  obtain ⟨rfl, rfl⟩ := Prod.mk.inj h
  exact ⟨rfl, rfl, rfl⟩

/-- **One block further.** -/
theorem Synced.commit (h : Synced env app genDoc w state) {d : Decided}
    (hvalid : validateBlock env.toHashes state d.block = .ok none) {blocks : BlockStore}
    (hblocks : saveDecided w d.blockID d.block = .ok blocks) {a' : AppState σ} {store' : Store}
    (happlied : Applied env app.conn w.store w.app state d.blockID d.block resp a' state' store')
    (wal : ℤ) : Synced env app genDoc ⟨blocks, wal, store', a'.commit⟩ state' := by
  have hchained : Chained env blocks store' state' :=
    h.toChained.commit d.valid hvalid hblocks happlied
  have hheight := h.toChained.height_of_valid hvalid
  have hpos := h.toChained.nextHeight_pos
  obtain ⟨info, -, hfinal⟩ := happlied.finalizeBlock
  obtain ⟨-, hexecuted, hlog⟩ := conn_finalizeBlock hfinal
  obtain ⟨hlast, hinitial, hhash⟩ := happlied.state_eq
  have hcommit : a'.commit.height = d.block.height ∧ a'.commit.hash = resp.appHash :=
    ⟨congrArg Prod.fst hexecuted, congrArg Prod.snd hexecuted⟩
  refine ⟨hchained, hcommit.1.trans hlast.symm, fun hzero => absurd hzero (by omega),
    fun _ => ⟨rfl, hcommit.2.trans hhash.symm⟩, ?_⟩
  show a'.log ++ [a'.executed.1] = _
  rw [hlog, h.log, hexecuted, hlast, hinitial]
  show _ ++ [d.block.height] = _
  rw [hheight]
  have hinit := h.toChained.initialHeight_pos
  have hheights := h.toChained.heights
  by_cases hzero : state.lastBlockHeight = 0
  · have hnext : state.nextHeight = state.initialHeight := if_pos hzero
    have hone := heightRange_succ (show state.initialHeight ≤ state.initialHeight - 1 + 1 by omega)
    rw [hnext, heightRange_of_lt (by omega : state.lastBlockHeight < state.initialHeight)]
    rw [sub_add_cancel,
      heightRange_of_lt (by omega : state.initialHeight - 1 < state.initialHeight)] at hone
    exact hone.symm
  · have hnext : state.nextHeight = state.lastBlockHeight + 1 := if_neg hzero
    rw [hnext]
    exact (heightRange_succ (by omega)).symm

end Synced

end CometBFT.Consensus
