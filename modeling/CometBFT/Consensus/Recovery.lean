import CometBFT.Consensus.Node

/-!
# Recovery from crashes

A node that dies while it commits a block, or while it starts, replays the block when it starts again:
with the application, or with the answer that was saved if the application had committed it. It ends
where it would be without the crash.

There are two exceptions, both at the first block. With an initial height above 1 the block store is
more than one height ahead of the state, which is taken for a corrupted store. And if the application
has committed the block, `Handshake` still sets the version that `Info` reports, but `InitChain` is not
called any more; if it had set another version, the block is invalid.

## Main results

* `Synced.start_resting`, `Synced.start_pending`, `Synced.start_unrecoverable` — what a start does,
  after each step that writes
* `crash_recovery` — every run with crashes ends where a run without crashes does
* `first_block_lost` — nodes that do not start any more
-/

namespace CometBFT.Consensus

open CometBFT.Types List Option Sm

variable {σ : Type} {env : Env} {app : Application σ} {genDoc : GenesisDoc}

/-! ### Which blocks are replayed -/

section Replay

variable {w : World (AppState σ)} {state state' : State} {appHash : Bytes} {appBlockHeight : ℤ}

theorem start_eq (now : Time) (h : w.store.load env.toCrypto = .ok (some state)) :
    start env app genDoc now w =
      handshake env app genDoc ⟨w.blocks, w.wal, w.store, w.app.restart⟩ state := by
  unfold start loadFromDBOrGenesisDoc
  dsimp only
  rw [h]

theorem handshake_of_pos (h : 0 < w.app.height) : handshake env app genDoc w state =
    replayStored env app genDoc w.app.height w
      (withAppVersion state (app.appVersion w.app.durable)) w.app.hash := by
  unfold handshake replay
  rw [if_neg (not_lt.mpr h.le), if_neg h.ne']

/-- Nothing is replayed if all are at one height. -/
theorem replayStored_of_synced (hpos : 0 < state.lastBlockHeight)
    (hblocks : w.blocks.height = state.lastBlockHeight) (hbase : w.blocks.base ≤ w.blocks.height) :
    replayStored env app genDoc state.lastBlockHeight w state appHash =
      { world := w, result := assertAppHash appHash state } := by
  unfold replayStored
  dsimp only
  repeat rw [if_neg (by omega)]
  rw [if_pos hblocks, if_neg (by omega)]

section

variable (hpos : 0 ≤ state.lastBlockHeight) (hblocks : w.blocks.height = state.lastBlockHeight + 1)
  (hbase : w.blocks.base ≤ w.blocks.height)

include hpos hblocks hbase

/-- The last block is replayed with the application if that is where the state is. -/
theorem replayStored_of_behind (hinitial : w.blocks.base ≤ state.initialHeight) :
    replayStored env app genDoc state.lastBlockHeight w state appHash =
      (replayBlock env app.conn w state w.blocks.height).andThen fun w state =>
        { world := w, result := .ok state.appHash } := by
  unfold replayStored
  dsimp only
  repeat rw [if_neg (by omega)]
  rw [if_pos rfl]

/-- It is replayed with the answer that was saved if the application is at the block. -/
theorem replayStored_of_committed : replayStored env app genDoc w.blocks.height w state appHash =
      replayCommitted env w state appHash w.blocks.height := by
  unfold replayStored
  dsimp only
  repeat rw [if_neg (by omega)]

end

/-- A block store that is ahead by more than one block. -/
theorem replayStored_of_ahead (happ : appBlockHeight = 0 ∨ appBlockHeight = w.blocks.height)
    (hblocks : state.lastBlockHeight + 1 < w.blocks.height) (hpos : 0 < w.blocks.height)
    (hbase : w.blocks.base ≤ w.blocks.height) (hinitial : w.blocks.base ≤ state.initialHeight) :
    replayStored env app genDoc appBlockHeight w state appHash =
      { world := w, result := .error (.panic "StoreBlockHeight > StateBlockHeight + 1") } := by
  unfold replayStored
  dsimp only
  repeat rw [if_neg (by omega)]
  rw [if_pos hblocks]

variable {height : ℤ} {resp : FinalizeBlockResponse}

theorem replayBlock_of_invalid {τ : Type} (conn : Conn τ) {w : World τ} {block : Block}
    {blockID : BlockID} (hblock : w.blocks.blocks height = some (block, blockID))
    (hvalid : validateBlock env.toHashes state block ≠ .ok none) :
    ∃ e, replayBlock env conn w state height = { world := w, result := .error e } := by
  unfold replayBlock applyBlock
  rw [hblock]
  dsimp only
  cases h : validateBlock env.toHashes state block with
  | error e => exact ⟨e, rfl⟩
  | ok o =>
    cases o with
    | none => exact absurd h hvalid
    | some e => exact ⟨.err (.invalidBlock e), rfl⟩

theorem replayBlock_eq {τ : Type} {conn : Conn τ} {w : World τ} {block : Block} {blockID : BlockID}
    (hblock : w.blocks.blocks height = some (block, blockID))
    (hvalid : validateBlock env.toHashes state block = .ok none) {a' : τ} {store' : Store}
    (happlied : Applied env conn w.store w.app state blockID block resp a' state' store') :
    replayBlock env conn w state height =
      ⟨{ w with store := store', app := conn.commit a' },
        [{ w with store := env.answered w.store block.height resp, app := a' },
          { w with store := env.answered w.store block.height resp, app := conn.commit a' },
          { w with store := store', app := conn.commit a' }], .ok state'⟩ := by
  unfold replayBlock applyBlock
  rw [hblock]
  dsimp only
  rw [hvalid]
  exact happlied.applyVerifiedBlock_eq

/-- The answer that was saved has the hash that the application reports. -/
theorem replayCommitted_eq (hresp : w.store.loadLastFinalizeBlockResponse height = .ok resp)
    (hhash : appHash = resp.appHash) :
    replayCommitted env w state appHash height =
      (replayBlock env (mockConn resp) w state height).andThen fun w state =>
        { world := w, result := .ok state.appHash } := by
  unfold replayCommitted
  rw [hresp, hhash]
  dsimp only
  split_ifs <;> rfl

end Replay

/-! ### A start after each step -/

section Start

variable {w v : World (AppState σ)} {state state' : State}

/-- `InitChain` at the first block once more. -/
theorem Begun.initChain_eq {a : AppState σ} (h : Begun env app genDoc a state)
    (hzero : state.lastBlockHeight = 0) {store : Store} (hsave : store.save state = .ok store)
    (blocks : BlockStore) (wal : ℤ) :
    initChain env app genDoc ⟨blocks, wal, store, a.restart⟩
        (withAppVersion state (app.appVersion a.durable)) =
      ⟨⟨blocks, wal, store, a⟩, [⟨blocks, wal, store, a⟩], .ok (state, state.appHash)⟩ := by
  obtain ⟨req, hreq, ha, hinit, hhash⟩ := h
  have hzero' : (withAppVersion state (app.appVersion a.durable)).lastBlockHeight = 0 := by
    rw [withAppVersion_of_zero hzero]
    exact hzero
  have heq := Consensus.initChain_eq (w := ⟨blocks, wal, store, a.restart⟩) hzero' hreq hinit hsave
  have ha' : { a.restart with working := (app.initChain req a.restart.working).2 } = a := ha.symm
  rw [heq, ha']
  show Traced.mk _ _ (.ok (state, (app.initChain req a.durable).1.appHash)) = _
  rw [hhash]

/-- **The handshake** of a node that is in step, or that has saved one more block: the application is
initialized if there is no block in the state. -/
theorem Synced.handshake_eq (h : Synced env app genDoc w state) {store : Store}
    (hsave : store.save state = .ok store) (blocks : BlockStore) (wal : ℤ) :
    ∃ trace, (∀ u ∈ trace, u = ⟨blocks, wal, store, w.app⟩) ∧
      handshake env app genDoc ⟨blocks, wal, store, w.app.restart⟩ state =
        (replayStored env app genDoc state.lastBlockHeight ⟨blocks, wal, store, w.app⟩ state
          state.appHash).after trace := by
  have hheights := h.toChained.heights
  have hpos := h.toChained.initialHeight_pos
  by_cases hzero : state.lastBlockHeight = 0
  · refine ⟨[⟨blocks, wal, store, w.app⟩], fun u hu => mem_singleton.mp hu, ?_⟩
    have happ : w.app.restart.height = 0 := h.appHeight.trans hzero
    have hinit := (h.begun hzero).initChain_eq hzero hsave blocks wal
    have hdurable : w.app.restart.durable = w.app.durable := rfl
    rw [handshake_of_zero (w := ⟨blocks, wal, store, w.app.restart⟩) happ, hzero, hdurable, hinit]
    rfl
  · obtain ⟨hrestart, hhash⟩ := h.running hzero
    refine ⟨[], fun u hu => absurd hu not_mem_nil, ?_⟩
    have happ : 0 < w.app.height := by
      rw [h.appHeight]
      omega
    rw [hrestart, handshake_of_pos (w := ⟨blocks, wal, store, w.app⟩) happ, withAppVersion,
      if_neg hzero, hhash, h.appHeight]
    rfl

/-- The process died between two blocks. -/
structure Resting (w v : World (AppState σ)) : Prop where
  blocks : v.blocks = w.blocks
  store : v.store = w.store
  app : v.app.restart = w.app.restart

theorem Synced.start_resting (h : Synced env app genDoc w state) (hrest : Resting w v) (now : Time) :
    ∃ trace, start env app genDoc now v =
        ⟨⟨w.blocks, v.wal, w.store, w.app⟩, trace, .ok state.appHash⟩ ∧
      ∀ u ∈ trace, Resting w u := by
  have hload : v.store.load env.toCrypto = .ok (some state) := hrest.store ▸ h.toChained.load
  obtain ⟨trace, htrace, heq⟩ := h.handshake_eq h.toChained.save_self w.blocks v.wal
  have hresting : ∀ u ∈ trace, Resting w u := by
    intro u hu
    obtain rfl := htrace u hu
    exact ⟨rfl, rfl, rfl⟩
  have hassert : assertAppHash state.appHash state = .ok state.appHash := if_pos rfl
  have hblocks := h.toChained.blockHeight
  have hbase := h.toChained.base
  have hnone : replayStored env app genDoc state.lastBlockHeight ⟨w.blocks, v.wal, w.store, w.app⟩
      state state.appHash =
        { world := ⟨w.blocks, v.wal, w.store, w.app⟩, result := .ok state.appHash } := by
    by_cases hzero : state.lastBlockHeight = 0
    · rw [replayStored_of_empty (w := ⟨w.blocks, v.wal, w.store, w.app⟩) (hblocks.trans hzero),
        hassert]
    · have hheights := h.toChained.heights
      have hpos := h.toChained.initialHeight_pos
      rw [if_neg hzero] at hbase
      rw [replayStored_of_synced (w := ⟨w.blocks, v.wal, w.store, w.app⟩) (by omega) hblocks
        (by rw [hbase, hblocks]; omega), hassert]
  rw [start_eq now hload, hrest.blocks, hrest.store, hrest.app, heq, hnone]
  exact ⟨trace, congrArg (Traced.mk _ · _) (append_nil trace), hresting⟩

/-- A block is committed, with what is left of it on disk: it is valid, it is saved, and it is applied
with an answer of the application. -/
structure Committing (env : Env) (app : Application σ) (w : World (AppState σ)) (state : State)
    (d : Decided) (blocks : BlockStore) (resp : FinalizeBlockResponse) (a' : AppState σ)
    (state' : State) (store' : Store) : Prop where
  valid : validateBlock env.toHashes state d.block = .ok none
  saved : saveDecided w d.blockID d.block = .ok blocks
  applied : Applied env app.conn w.store w.app state d.blockID d.block resp a' state' store'

/-- The process died while it committed the block. -/
inductive Pending (env : Env) (w : World (AppState σ)) (d : Decided) (blocks : BlockStore)
    (resp : FinalizeBlockResponse) (a' : AppState σ) : World (AppState σ) → Prop where
  | saved {v : World (AppState σ)} (hblocks : v.blocks = blocks)
      (hstore : v.store = w.store ∨ v.store = env.answered w.store d.block.height resp)
      (happ : v.app.restart = w.app.restart) : Pending env w d blocks resp a' v
  | committed {v : World (AppState σ)} (hblocks : v.blocks = blocks)
      (hstore : v.store = env.answered w.store d.block.height resp)
      (happ : v.app.restart = a'.commit) : Pending env w d blocks resp a' v

variable {d : Decided} {blocks : BlockStore} {resp : FinalizeBlockResponse} {a' : AppState σ}
  {store' : Store}

theorem Pending.blocks_eq (h : Pending env w d blocks resp a' v) : v.blocks = blocks := by
  cases h with
  | saved hblocks _ _ => exact hblocks
  | committed hblocks _ _ => exact hblocks

/-- What the application executes is not there after a restart, before it has committed. -/
theorem Committing.app_eq (hc : Committing env app w state d blocks resp a' state' store') :
    a'.restart = w.app.restart ∧ a'.commit.height = d.block.height ∧
      a'.commit.hash = resp.appHash := by
  obtain ⟨info, -, hfinal⟩ := hc.applied.finalizeBlock
  obtain ⟨hrestart, hexecuted, -⟩ := conn_finalizeBlock hfinal
  exact ⟨hrestart, congrArg Prod.fst hexecuted, congrArg Prod.snd hexecuted⟩

section

variable (h : Synced env app genDoc w state)
  (hc : Committing env app w state d blocks resp a' state' store')

include h hc

/-- What the block store has after the block. -/
theorem Synced.blocks_eq : blocks.base = state.initialHeight ∧ blocks.height = state.nextHeight ∧
      blocks.blocks blocks.height = some (d.block, d.blockID) ∧ d.block.height = state.nextHeight := by
  have hheight := h.toChained.height_of_valid hc.valid
  have hblocks := hc.saved
  rw [h.toChained.saveDecided_eq hheight] at hblocks
  cases hblocks
  exact ⟨rfl, hheight, Function.update_self _ _ _, hheight⟩

theorem Synced.loadLast_eq : (env.answered w.store d.block.height resp).loadLastFinalizeBlockResponse
    blocks.height = .ok resp := by
  obtain ⟨-, hheight, -, hdheight⟩ := h.blocks_eq hc
  rw [hheight, ← hdheight]
  exact env.loadLast_answered _ _ _

/-- **A start after the block was saved**, with the application. -/
theorem Synced.start_saved (hnext : state.nextHeight = state.lastBlockHeight + 1)
    (hblocks : v.blocks = blocks)
    (hstore : v.store = w.store ∨ v.store = env.answered w.store d.block.height resp)
    (happ : v.app.restart = w.app.restart) (now : Time) : ∃ trace, start env app genDoc now v =
        ⟨⟨blocks, v.wal, store', a'.commit⟩, trace, .ok state'.appHash⟩ ∧
      ∀ u ∈ trace, Pending env w d blocks resp a' u ∨ Resting ⟨blocks, v.wal, store', a'.commit⟩ u := by
  obtain ⟨hbase, hheight, hblock, -⟩ := h.blocks_eq hc
  have hpos := h.toChained.nextHeight_pos
  have hle := h.toChained.initialHeight_le
  -- the answer may have been saved already
  obtain ⟨hchained, happlied, hanswered⟩ : Chained env w.blocks v.store state ∧
      Applied env app.conn v.store w.app state d.blockID d.block resp a' state' store' ∧
      env.answered v.store d.block.height resp = env.answered w.store d.block.height resp := by
    rcases hstore with hstore | hstore
    · rw [hstore]
      exact ⟨h.toChained, hc.applied, rfl⟩
    · rw [hstore]
      exact ⟨h.toChained.answered _ _, hc.applied.of_answered, env.answered_answered _ _ _⟩
  obtain ⟨trace, htrace, heq⟩ := h.handshake_eq hchained.save_self blocks v.wal
  have hreplay := replayBlock_eq (w := ⟨blocks, v.wal, v.store, w.app⟩) hblock hc.valid happlied
  rw [start_eq now hchained.load, hblocks, happ, heq,
    replayStored_of_behind (w := ⟨blocks, v.wal, v.store, w.app⟩) (by omega) (hheight.trans hnext)
      (by show blocks.base ≤ blocks.height; omega) hbase.le,
    Traced.andThen_of_ok (congrArg Traced.result hreplay), hreplay]
  refine ⟨_, rfl, fun u hu => ?_⟩
  simp only [Traced.after, append_nil, mem_append, mem_cons, not_mem_nil,
    or_false] at hu
  rcases hu with hu | rfl | rfl | rfl
  · obtain rfl := htrace u hu
    exact .inl (.saved rfl hstore rfl)
  · exact .inl (.saved rfl (.inr hanswered) hc.app_eq.1)
  · exact .inl (.committed rfl hanswered rfl)
  · exact .inr ⟨rfl, rfl, rfl⟩

/-- **A start after the application has committed the block**, with the answer that was saved. -/
theorem Synced.start_committed (hnext : state.nextHeight = state.lastBlockHeight + 1)
    (hversion : state.lastBlockHeight = 0 →
      app.appVersion v.app.durable = state.version.consensus.app) (hblocks : v.blocks = blocks)
    (hstore : v.store = env.answered w.store d.block.height resp) (happ : v.app.restart = a'.commit)
    (now : Time) : ∃ trace, start env app genDoc now v =
        ⟨⟨blocks, v.wal, store', a'.commit⟩, trace, .ok state'.appHash⟩ ∧
      ∀ u ∈ trace, Pending env w d blocks resp a' u ∨ Resting ⟨blocks, v.wal, store', a'.commit⟩ u := by
  obtain ⟨hbase, hheight, hblock, hdheight⟩ := h.blocks_eq hc
  have hpos := h.toChained.nextHeight_pos
  have hle := h.toChained.initialHeight_le
  have hload : v.store.load env.toCrypto = .ok (some state) := hstore ▸ (h.toChained.answered _ _).load
  obtain ⟨-, happHeight, happHash⟩ := hc.app_eq
  rw [hdheight, ← hheight] at happHeight
  have hsame : withAppVersion state (app.appVersion a'.commit.durable) = state := by
    by_cases hzero : state.lastBlockHeight = 0
    · have hdurable : a'.commit.durable = v.app.durable := (congrArg AppState.durable happ).symm
      rw [withAppVersion_of_zero hzero, hdurable, hversion hzero]
    · exact if_neg hzero
  have hmock : Applied env (mockConn resp) (env.answered w.store d.block.height resp) a'.commit state
      d.blockID d.block resp a'.commit state' store' := hc.applied.mock _
  have hreplay := replayBlock_eq
    (w := ⟨blocks, v.wal, env.answered w.store d.block.height resp, a'.commit⟩) hblock hc.valid hmock
  rw [start_eq now hload, hblocks, hstore, happ,
    handshake_of_pos (w := ⟨blocks, v.wal, _, a'.commit⟩) (by rw [happHeight]; omega), hsame, happHeight,
    replayStored_of_committed (w := ⟨blocks, v.wal, _, a'.commit⟩) (by omega) (hheight.trans hnext)
      (by show blocks.base ≤ blocks.height; omega),
    replayCommitted_eq (h.loadLast_eq hc) happHash,
    Traced.andThen_of_ok (congrArg Traced.result hreplay), hreplay]
  refine ⟨_, rfl, fun u hu => ?_⟩
  simp only [append_nil, mem_cons, not_mem_nil, or_false] at hu
  rcases hu with rfl | rfl | rfl
  · exact .inl (.committed rfl (env.answered_answered _ _ _) rfl)
  · exact .inl (.committed rfl (env.answered_answered _ _ _) rfl)
  · exact .inr ⟨rfl, rfl, rfl⟩

end

end Start

/-! ### Runs with crashes -/

/-- A start can succeed: if the first block is in the block store but not in the state, the initial
height is 1, and the application has not committed the block, or reports the version that is in the
state. -/
def Recoverable (env : Env) (app : Application σ) (w : World (AppState σ)) : Prop :=
  match w.store.load env.toCrypto with
  | .ok (some state) => state.lastBlockHeight = 0 → w.blocks.height ≠ 0 →
      state.initialHeight = 1 ∧
        (w.app.height ≠ 0 → app.appVersion w.app.durable = state.version.consensus.app)
  | _ => True

instance (w : World (AppState σ)) : Decidable (Recoverable env app w) :=
  match h : w.store.load env.toCrypto with
  | .ok (some state) => decidable_of_iff (state.lastBlockHeight = 0 → w.blocks.height ≠ 0 →
      state.initialHeight = 1 ∧
        (w.app.height ≠ 0 → app.appVersion w.app.durable = state.version.consensus.app))
      (by rw [Recoverable, h])
  | .ok none => isTrue (by rw [Recoverable, h]; trivial)
  | .error _ => isTrue (by rw [Recoverable, h]; trivial)

/-- Wherever the process dies, a start can succeed. -/
def Careful (env : Env) (app : Application σ) (genDoc : GenesisDoc) (node : Node σ) (e : Event) :
    Prop :=
  match node.next env app genDoc e with
  | some (.down w) => Recoverable env app w
  | _ => True

instance (node : Node σ) (e : Event) : Decidable (Careful env app genDoc node e) :=
  match h : node.next env app genDoc e with
  | some (.down w) => decidable_of_iff (Recoverable env app w) (by rw [Careful, h])
  | some (.up _ _) => isTrue (by rw [Careful, h]; trivial)
  | none => isTrue (by rw [Careful, h]; trivial)

/-- What is on disk is the same, apart from the log of the consensus messages. -/
structure SameDisk (v w : World (AppState σ)) : Prop where
  blocks : v.blocks = w.blocks
  store : v.store = w.store
  app : v.app = w.app

def Event.IsCommit : Event → Prop
  | .commit _ => True
  | _ => False

section Run

variable {w v : World (AppState σ)} {state state' : State} {d : Decided} {blocks : BlockStore}
  {resp : FinalizeBlockResponse} {a' : AppState σ} {store' : Store}

/-- The state of before is still there. -/
theorem Pending.load (h : Synced env app genDoc w state) (hp : Pending env w d blocks resp a' v) :
    v.store.load env.toCrypto = .ok (some state) := by
  cases hp with
  | saved hblocks hstore happ =>
    rcases hstore with hstore | hstore
    · exact hstore ▸ h.toChained.load
    · exact hstore ▸ (h.toChained.answered _ _).load
  | committed hblocks hstore happ => exact hstore ▸ (h.toChained.answered _ _).load

section

variable (h : Synced env app genDoc w state)
  (hc : Committing env app w state d blocks resp a' state' store')
  (hp : Pending env w d blocks resp a' v)

include h hc hp

/-- **A start while the block is pending** ends with the block committed. -/
theorem Synced.start_pending (hrec : Recoverable env app v) (now : Time) :
    ∃ trace, start env app genDoc now v =
        ⟨⟨blocks, v.wal, store', a'.commit⟩, trace, .ok state'.appHash⟩ ∧
      ∀ u ∈ trace, Pending env w d blocks resp a' u ∨ Resting ⟨blocks, v.wal, store', a'.commit⟩ u := by
  obtain ⟨-, hheight, -, hdheight⟩ := h.blocks_eq hc
  have hpos := h.toChained.nextHeight_pos
  unfold Recoverable at hrec
  rw [hp.load h] at hrec
  have hblocks := hp.blocks_eq
  have hnext : state.nextHeight = state.lastBlockHeight + 1 := by
    unfold State.nextHeight
    by_cases hzero : state.lastBlockHeight = 0
    · rw [if_pos hzero, hzero, (hrec hzero (by rw [hblocks]; omega)).1]
      rfl
    · exact if_neg hzero
  cases hp with
  | saved _ hstore happ => exact h.start_saved hc hnext hblocks hstore happ now
  | committed _ hstore happ =>
    refine h.start_committed hc hnext (fun hzero => ?_) hblocks hstore happ now
    refine (hrec hzero (by rw [hblocks]; omega)).2 ?_
    have happHeight : v.app.height = d.block.height :=
      (congrArg AppState.height happ).trans hc.app_eq.2.1
    omega

/-- **A start that cannot succeed** leaves the block pending. -/
theorem Synced.start_unrecoverable (hrec : ¬Recoverable env app v) (now : Time) :
    (∃ e, (start env app genDoc now v).result = .error e) ∧
      ∀ u ∈ (start env app genDoc now v).trace, Pending env w d blocks resp a' u := by
  obtain ⟨hbase, hheight, hblock, hdheight⟩ := h.blocks_eq hc
  have hpos := h.toChained.nextHeight_pos
  unfold Recoverable at hrec
  rw [hp.load h] at hrec
  dsimp only at hrec
  push Not at hrec
  obtain ⟨hzero, -, hrec⟩ := hrec
  have hnext : state.nextHeight = state.initialHeight := if_pos hzero
  have hblocksPos : 0 < blocks.height := by omega
  have hblocksBase : blocks.base ≤ blocks.height := by omega
  rw [start_eq now (hp.load h)]
  cases hp with
  | saved hblocks hstore happ =>
    have hsave : v.store.save state = .ok v.store := by
      rcases hstore with hstore | hstore
      · exact hstore ▸ h.toChained.save_self
      · exact hstore ▸ (h.toChained.answered _ _).save_self
    have hinitial : state.initialHeight ≠ 1 := by
      intro hone
      have happHeight : v.app.height = w.app.height := (congrArg AppState.height happ :)
      exact (hrec hone).1 (happHeight.trans (h.appHeight.trans hzero))
    obtain ⟨trace, htrace, heq⟩ := h.handshake_eq hsave blocks v.wal
    rw [hblocks, happ, heq, hzero, replayStored_of_ahead (w := ⟨blocks, v.wal, v.store, w.app⟩) (.inl rfl)
      (by show _ < blocks.height; omega) hblocksPos hblocksBase hbase.le]
    refine ⟨⟨_, rfl⟩, fun u hu => ?_⟩
    obtain rfl := htrace u (by simpa only [Traced.after, append_nil] using hu)
    exact .saved rfl hstore rfl
  | committed hblocks hstore happ =>
    obtain ⟨-, happHeight, happHash⟩ := hc.app_eq
    replace happHeight : a'.commit.height = blocks.height := by omega
    have happPos : 0 < a'.commit.height := by omega
    have hlast : (withAppVersion state (app.appVersion a'.commit.durable)).lastBlockHeight = 0 := by
      rw [withAppVersion_of_zero hzero]
      exact hzero
    rw [hblocks, hstore, happ, handshake_of_pos (w := ⟨blocks, v.wal, _, a'.commit⟩) happPos]
    by_cases hinitial : state.initialHeight = 1
    · have hversion : app.appVersion a'.commit.durable ≠ state.version.consensus.app :=
        (congrArg AppState.durable happ :) ▸ (hrec hinitial).2
      have hinvalid : validateBlock env.toHashes
          (withAppVersion state (app.appVersion a'.commit.durable)) d.block ≠ .ok none := by
        intro hvalid
        have hold := (fits_of_validateBlock hc.valid).version
        have hnew := (fits_of_validateBlock hvalid).version
        rw [withAppVersion_of_zero hzero, hold] at hnew
        exact hversion (congrArg Version.app hnew).symm
      obtain ⟨e, he⟩ := replayBlock_of_invalid (mockConn resp)
        (w := ⟨blocks, v.wal, env.answered w.store d.block.height resp, a'.commit⟩) hblock hinvalid
      rw [happHeight,
        replayStored_of_committed (w := ⟨blocks, v.wal, _, a'.commit⟩) hlast.ge
          (by show blocks.height = _; omega) hblocksBase,
        replayCommitted_eq (h.loadLast_eq hc) happHash, he]
      exact ⟨⟨e, rfl⟩, fun u hu => absurd hu not_mem_nil⟩
    · rw [happHeight,
        replayStored_of_ahead (w := ⟨blocks, v.wal, _, a'.commit⟩) (.inr rfl)
          (hlast.symm ▸ (by omega : (0 : ℤ) + 1 < blocks.height)) hblocksPos hblocksBase
          (by rw [withAppVersion_of_zero hzero]; exact hbase.le)]
      exact ⟨⟨_, rfl⟩, fun u hu => absurd hu not_mem_nil⟩

end

/-- A block that is committed, on the same disk. -/
theorem committing_of_finalizeCommit (hsame : SameDisk v w)
    (h : (finalizeCommit env app.conn v state d.blockID d.block).result = .ok state') :
    ∃ blocks resp a' store', Committing env app w state d blocks resp a' state' store' := by
  obtain ⟨hvalid, blocks, resp, a', store', hblocks, happlied⟩ := finalizeCommit_eq_ok h
  refine ⟨blocks, resp, a', store', hvalid, ?_, hsame.store ▸ hsame.app ▸ happlied⟩
  unfold saveDecided at hblocks ⊢
  rw [← hsame.blocks]
  exact hblocks

theorem Committing.finalizeCommit_eq (hc : Committing env app w state d blocks resp a' state' store')
    (hsame : SameDisk v w) : finalizeCommit env app.conn v state d.blockID d.block =
      ⟨⟨blocks, d.block.height, store', a'.commit⟩,
        [⟨blocks, v.wal, w.store, w.app⟩, ⟨blocks, d.block.height, w.store, w.app⟩,
          ⟨blocks, d.block.height, env.answered w.store d.block.height resp, a'⟩,
          ⟨blocks, d.block.height, env.answered w.store d.block.height resp, a'.commit⟩,
          ⟨blocks, d.block.height, store', a'.commit⟩], .ok state'⟩ := by
  have hblocks : saveDecided v d.blockID d.block = .ok blocks := by
    have := hc.saved
    unfold saveDecided at this ⊢
    rw [hsame.blocks]
    exact this
  have happlied : Applied env app.conn v.store v.app state d.blockID d.block resp a' state' store' := by
    rw [hsame.store, hsame.app]
    exact hc.applied
  rw [happlied.finalizeCommit_eq hc.valid hblocks, hsame.store, hsame.app]
  rfl

/-- How a node with crashes is related to one without. -/
inductive Tracks (env : Env) (app : Application σ) (genDoc : GenesisDoc)
    (clean : World (AppState σ) → State → Prop) : Node σ → Prop where
  | up {w v : World (AppState σ)} {state : State} (hclean : clean w state)
      (h : Synced env app genDoc w state) (hsame : SameDisk v w) :
      Tracks env app genDoc clean (.up v state)
  | resting {w v : World (AppState σ)} {state : State} (hclean : clean w state)
      (h : Synced env app genDoc w state) (hrest : Resting w v) : Tracks env app genDoc clean (.down v)
  | pending {w v : World (AppState σ)} {state state' : State} {d : Decided} {blocks : BlockStore}
      {resp : FinalizeBlockResponse} {a' : AppState σ} {store' : Store} (hclean : clean w state)
      (h : Synced env app genDoc w state)
      (hc : Committing env app w state d blocks resp a' state' store')
      (hp : Pending env w d blocks resp a' v) : Tracks env app genDoc clean (.down v)

variable {clean : World (AppState σ) → State → Prop} {node : Node σ}

theorem Committing.next_eq (hc : Committing env app w state d blocks resp a' state' store')
    (hsame : SameDisk v w) : Node.next env app genDoc (.up v state) (.commit d) =
      some (.up ⟨blocks, d.block.height, store', a'.commit⟩ state') := by
  unfold Node.next
  dsimp only
  rw [hc.finalizeCommit_eq hsame]

/-- What is on disk if the process dies while it commits a block. -/
theorem pending_of_crash (hsame : SameDisk v w) {k : ℕ}
    (hn : Node.next env app genDoc (.up v state) (.crash d k) = some node) :
    ∃ u blocks resp a' state' store', node = .down u ∧
      Committing env app w state d blocks resp a' state' store' ∧
      (Pending env w d blocks resp a' u ∨
        Resting ⟨blocks, d.block.height, store', a'.commit⟩ u) := by
  unfold Node.next at hn
  dsimp only at hn
  split at hn
  · rename_i state' hresult
    obtain ⟨blocks, resp, a', store', hc⟩ := committing_of_finalizeCommit hsame hresult
    rw [hc.finalizeCommit_eq hsame] at hn
    obtain ⟨u, hu, rfl⟩ := map_eq_some_iff.mp hn
    refine ⟨u, blocks, resp, a', state', store', rfl, hc, ?_⟩
    have hmem := mem_of_getElem? hu
    simp only [mem_cons, not_mem_nil, or_false] at hmem
    rcases hmem with rfl | rfl | rfl | rfl | rfl
    · exact .inl (.saved rfl (.inl rfl) rfl)
    · exact .inl (.saved rfl (.inl rfl) rfl)
    · exact .inl (.saved rfl (.inr rfl) hc.app_eq.1)
    · exact .inl (.committed rfl rfl rfl)
    · exact .inr ⟨rfl, rfl, rfl⟩
  · cases hn

/-- The process died before or after the block was committed. -/
theorem Tracks.of_pending_or_resting
    (hcommit : clean ⟨blocks, d.block.height, store', a'.commit⟩ state') (hclean : clean w state)
    (h : Synced env app genDoc w state)
    (hc : Committing env app w state d blocks resp a' state' store')
    (hor : Pending env w d blocks resp a' v ∨
      Resting ⟨blocks, d.block.height, store', a'.commit⟩ v) :
    Tracks env app genDoc clean (.down v) := by
  rcases hor with hp | hrest
  · exact .pending hclean h hc hp
  · exact .resting hcommit (h.commit hc.valid hc.saved hc.applied _) hrest

/-- **One step** of a node with crashes, while one without crashes may commit a block. -/
theorem Tracks.next (hstep : ∀ {w state d blocks resp a' state' store'}, clean w state →
      Synced env app genDoc w state →
      Committing env app w state d blocks resp a' state' store' →
      clean ⟨blocks, d.block.height, store', a'.commit⟩ state')
    {node' : Node σ} {e : Event} (h : Tracks env app genDoc clean node)
    (hn : node.next env app genDoc e = some node') : Tracks env app genDoc clean node' := by
  cases h with
  | @up w v state hclean h hsame =>
    cases e with
    | commit d =>
      have hn' := hn
      unfold Node.next at hn'
      dsimp only at hn'
      split at hn'
      · rename_i state' hresult
        obtain ⟨blocks, resp, a', store', hc⟩ := committing_of_finalizeCommit hsame hresult
        obtain rfl := some.inj ((hc.next_eq hsame).symm.trans hn)
        exact .up (hstep hclean h hc) (h.commit hc.valid hc.saved hc.applied _) ⟨rfl, rfl, rfl⟩
      · cases hn'
    | crash d k =>
      obtain ⟨u, blocks, resp, a', state', store', rfl, hc, hor⟩ := pending_of_crash hsame hn
      exact .of_pending_or_resting (hstep hclean h hc) hclean h hc hor
    | stop =>
      cases hn
      exact .resting hclean h ⟨hsame.blocks, hsame.store, congrArg AppState.restart hsame.app⟩
    | _ => cases hn
  | @resting w v state hclean h hrest =>
    cases e with
    | start now =>
      obtain ⟨trace, hstart, -⟩ := h.start_resting hrest now
      obtain ⟨hash, state', -, hload, rfl⟩ := started_eq_some hn
      rw [hstart] at hload ⊢
      obtain rfl : state = state' :=
        some.inj (Except.ok.inj (h.toChained.load.symm.trans hload))
      exact .up hclean h ⟨rfl, rfl, rfl⟩
    | crashAgain now k =>
      obtain ⟨trace, hstart, htrace⟩ := h.start_resting hrest now
      obtain ⟨u, hu, rfl⟩ := map_eq_some_iff.mp hn
      rw [hstart] at hu
      exact .resting hclean h (htrace u (mem_of_getElem? hu))
    | _ => cases hn
  | @pending w v state state' d blocks resp a' store' hclean h hc hp =>
    have hcommit := hstep hclean h hc
    cases e with
    | start now =>
      obtain ⟨hash, state'', hresult, hload, rfl⟩ := started_eq_some hn
      have hrec : Recoverable env app v := by
        by_contra hrec
        obtain ⟨⟨e, he⟩, -⟩ := h.start_unrecoverable hc hp hrec now
        cases he.symm.trans hresult
      obtain ⟨trace, hstart, -⟩ := h.start_pending hc hp hrec now
      have hsynced := h.commit hc.valid hc.saved hc.applied d.block.height
      rw [hstart] at hload ⊢
      obtain rfl : state' = state'' :=
        some.inj (Except.ok.inj (hsynced.toChained.load.symm.trans hload))
      exact .up hcommit hsynced ⟨rfl, rfl, rfl⟩
    | crashAgain now k =>
      obtain ⟨u, hu, rfl⟩ := map_eq_some_iff.mp hn
      by_cases hrec : Recoverable env app v
      · obtain ⟨trace, hstart, htrace⟩ := h.start_pending hc hp hrec now
        rw [hstart] at hu
        exact .of_pending_or_resting hcommit hclean h hc
          ((htrace u (mem_of_getElem? hu)).imp id fun hr => ⟨hr.blocks, hr.store, hr.app⟩)
      · exact .pending hclean h hc
          ((h.start_unrecoverable hc hp hrec now).2 u (mem_of_getElem? hu))
    | _ => cases hn

/-- Wherever the process is down, it can be started. -/
theorem recoverable_of_careful
    (hrun : Steps (Node.next env app genDoc) (Careful env app genDoc) (.up w state) node) :
    ∀ u, node = .down u → Recoverable env app u := by
  refine hrun.invariant (fun u hu => ?_) fun node e node' _ hcareful hn u hu => ?_
  · cases hu
  · unfold Careful at hcareful
    rw [hn, hu] at hcareful
    exact hcareful

end Run

/-- **Crash recovery.** Whenever the process dies, if a start can succeed at all, it does, and ends
where the node would be without any crash: with the same blocks, states and application, which has
committed each height once and in order. -/
theorem crash_recovery (hkeys : ∀ v ∈ genDoc.vals, decodesKey v.pubKey = true) {durable : σ}
    {now₀ : Time} {first node : Node σ}
    (hfirst : Node.next env app genDoc (.fresh durable) (.start now₀) = some first)
    (hrun : Steps (Node.next env app genDoc) (Careful env app genDoc) first node) :
    ∃ w state, Steps (Node.next env app genDoc) (fun _ e => e.IsCommit) first (.up w state) ∧
      w.store.load env.toCrypto = .ok (some state) ∧ w.blocks.height = state.lastBlockHeight ∧
      w.app.height = state.lastBlockHeight ∧
      w.app.log = heightRange state.initialHeight state.lastBlockHeight ∧
      match node with
      | .up v state' => SameDisk v w ∧ state' = state
      | .down v => v.blocks = w.blocks ∧ ∀ now,
          (start env app genDoc now v).result = .ok state.appHash ∧
            SameDisk (start env app genDoc now v).world w := by
  obtain ⟨w₀, s₀, rfl, hsynced, -⟩ := synced_of_first hkeys hfirst
  have htracks : Tracks env app genDoc (fun w state =>
      Steps (Node.next env app genDoc) (fun _ e => e.IsCommit) (.up w₀ s₀) (.up w state)) node :=
    hrun.invariant (.up (.refl _) hsynced ⟨rfl, rfl, rfl⟩) fun _ _ _ hi _ hn =>
      hi.next (fun hclean _ hc => hclean.tail (a := .commit _) trivial (hc.next_eq ⟨rfl, rfl, rfl⟩)) hn
  have hrecoverable := recoverable_of_careful hrun
  cases htracks with
  | @up w v state hclean h hsame =>
    exact ⟨w, state, hclean, h.toChained.load, h.toChained.blockHeight, h.appHeight, h.log, hsame, rfl⟩
  | @resting w v state hclean h hrest =>
    refine ⟨w, state, hclean, h.toChained.load, h.toChained.blockHeight, h.appHeight, h.log,
      hrest.blocks, fun now => ?_⟩
    obtain ⟨trace, hstart, -⟩ := h.start_resting hrest now
    rw [hstart]
    exact ⟨rfl, rfl, rfl, rfl⟩
  | @pending w v state state' d blocks resp a' store' hclean h hc hp =>
    have h' := h.commit hc.valid hc.saved hc.applied d.block.height
    refine ⟨⟨blocks, d.block.height, store', a'.commit⟩, state',
      hclean.tail (a := .commit d) trivial (hc.next_eq ⟨rfl, rfl, rfl⟩), h'.toChained.load,
      h'.toChained.blockHeight, h'.appHeight, h'.log, hp.blocks_eq, fun now => ?_⟩
    obtain ⟨trace, hstart, -⟩ := h.start_pending hc hp (hrecoverable v rfl) now
    rw [hstart]
    exact ⟨rfl, rfl, rfl, rfl⟩

/-! ### The first block -/

def keyedEnv : Env where
  toHashes := keyedHashes
  hashResults _ := []
  discardABCIResponses := false

/-- An application that counts the blocks, with the version that `Info` reports and the parameters
that `InitChain` returns. -/
def counter (version : UInt64) (params : Option ParamsUpdate) : Application ℕ where
  appVersion _ := version
  initChain _ n := ({ consensusParams := params }, n)
  finalizeBlock _ n := (⟨[], [], none, [UInt8.ofNat (n + 1)]⟩, n + 1)

/-- Two validators, and an initial height. -/
def genesisAt (height : ℤ) : GenesisDoc :=
  { genesisOf [(1, 3), (2, 1)] with
    initialHeight := height
    consensusParams := some defaultConsensusParams }

theorem someID_valid : someID.validateBasic = true := by decide

/-- The first block, at an initial height. -/
def firstBlock (height : ℤ) : Decided where
  block := { secondBlock 5 [] with
    height := height
    lastBlockID := {}
    lastCommit := some ⟨0, 0, {}, []⟩ }
  blockID := someID
  valid := someID_valid

/-- Whether the process dies twice: after the answer for the first block was saved, and, while it
starts, after the application has committed the block. -/
def crashesTwice : Bool :=
  match Node.next keyedEnv (counter 0 none) (genesisAt 1) (.fresh 0) (.start 0) with
  | none => false
  | some first => match execWhere (Node.next keyedEnv (counter 0 none) (genesisAt 1))
      (Careful keyedEnv (counter 0 none) (genesisAt 1)) first
      [.crash (firstBlock 1) 2, .crashAgain 0 2] with
    | some (.down v) => decide (v.app.log = [1])
    | _ => false

theorem crash_recovery_twice : ∃ first v,
    Node.next keyedEnv (counter 0 none) (genesisAt 1) (.fresh 0) (.start 0) = some first ∧
    execWhere (Node.next keyedEnv (counter 0 none) (genesisAt 1))
      (Careful keyedEnv (counter 0 none) (genesisAt 1)) first
      [.crash (firstBlock 1) 2, .crashAgain 0 2] = some (.down v) ∧ v.app.log = [1] ∧
    ∃ w state, Steps (Node.next keyedEnv (counter 0 none) (genesisAt 1)) (fun _ e => e.IsCommit) first
        (.up w state) ∧
      w.app.log = heightRange state.initialHeight state.lastBlockHeight ∧
      (start keyedEnv (counter 0 none) (genesisAt 1) 0 v).result = .ok state.appHash := by
  have hrun : crashesTwice = true := by decide +kernel
  unfold crashesTwice at hrun
  split at hrun
  · cases hrun
  rename_i first hfirst
  split at hrun
  · rename_i v hv
    obtain ⟨w, state, hclean, -, -, -, hlog, -, hstart⟩ :=
      crash_recovery (by decide) hfirst (steps_of_execWhere hv)
    exact ⟨first, v, hfirst, hv, of_decide_eq_true hrun, w, state, hclean, hlog, (hstart 0).1⟩
  · cases hrun

/-- How a start ends after the process has died while it committed the first block, which it would
have committed otherwise. -/
def afterCrash (app : Application ℕ) (genDoc : GenesisDoc) (d : Decided) (k : ℕ) :
    Option (Except Fault Bytes) := do
  let first ← Node.next keyedEnv app genDoc (.fresh 0) (.start 0)
  let _ ← Node.next keyedEnv app genDoc first (.commit d)
  match ← Node.next keyedEnv app genDoc first (.crash d k) with
  | .down w => some (start keyedEnv app genDoc 0 w).result
  | .up _ _ => none

/-- **Nodes that do not start any more.** With an initial height of 2, the first block was saved: the
block store is at height 2, the state at height 0. Or the application reports version 5, `InitChain`
returned parameters with version 0, and the application has committed the first block. -/
theorem first_block_lost :
    afterCrash (counter 0 none) (genesisAt 2) (firstBlock 2) 0 =
      some (.error (.panic "StoreBlockHeight > StateBlockHeight + 1")) ∧
    afterCrash (counter 5 (some {})) (genesisAt 1) (firstBlock 1) 3 =
      some (.error (.err (.invalidBlock (.wrongVersion ⟨blockProtocol, 5⟩ ⟨blockProtocol, 0⟩)))) := by
  decide +kernel

end CometBFT.Consensus
