import CometBFT.Consensus.LastCommit
import CometBFT.Consensus.Recovery

/-!
# Block sync

The model of `internal/blocksync`: a node that is behind gets blocks from its peers. The pool has the
blocks of some heights in a row; the routine verifies the first one with the last commit of the second,
saves and applies it. The commit that is saved with it is that last commit, or with vote extensions the
extended commit that the peer sent along.

Which peers are asked and when a request is made again is left open: a request may be made or given up
at any time, and any block may come as an answer. What is received is decoded first.

`VerifyCommitLight` stops as soon as it has found enough valid signatures, and nothing verifies the
extended commit. When the node starts, each signature of the stored commit has to be valid.

## Main results

* `Node.next_cases` — what a step can do
* `sync_startable` — what a block that is applied has passed; and the node can start from what it has
  synced, if all signatures of the commits it stored are valid
* `sync_unstartable` — a node that cannot start, after a peer added a signature to a commit
-/

namespace CometBFT

/-! ### Validators of a stored state -/

namespace Sm.Storable

open CometBFT.Types

variable {crypto : Crypto} {vals : ValidatorSet}

theorem valid (h : Storable crypto vals) : vals.Valid := ⟨h.pos, h.total⟩

theorem cached (h : Storable crypto vals) : vals.Cached := by
  refine .inr ?_
  rw [h.total]
  exact Validators.updateTotalVotingPower_of_le (fun v hv => (h.pos v hv).le) h.total_le

theorem addressed (h : Storable crypto vals) : vals.Addressed crypto := by
  intro val hval pubKey hkey
  obtain ⟨key, hkey', -, haddr⟩ := h.keyed val hval
  obtain rfl : key = pubKey := Option.some.inj (hkey'.symm.trans hkey)
  exact haddr.symm

end Sm.Storable

namespace Blocksync

open CometBFT.Types Consensus
open Sm (Conn World lift)

/-! ### The pool -/

/-- A block as a peer sends it. -/
structure Response where
  block : Block
  extCommit : Option ExtendedCommit
deriving DecidableEq, Repr

/-- `BlockPool`: what was received for the heights from `height` on that are requested. -/
structure Pool where
  height : ℤ
  requesters : List (Option Response) := []
deriving DecidableEq, Repr

namespace Pool

variable (pool : Pool)

/-- The first block and the second, without the extended commit of the second. -/
def peekTwoBlocks : Option Response × Option Block :=
  (pool.requesters[0]?.join, pool.requesters[1]?.join.map Response.block)

def popRequest : Pool := ⟨pool.height + 1, pool.requesters.tail⟩

/-- `makeNextRequester`. -/
def makeNextRequester : Pool := { pool with requesters := pool.requesters ++ [none] }

/-- The block of a request is dropped, and another peer is asked. -/
def redo (i : ℕ) : Pool :=
  if i < pool.requesters.length then { pool with requesters := pool.requesters.set i none } else pool

/-- `AddBlock`, from a peer that was asked. A block that came first stays. -/
def addBlock (block : Block) (extCommit : Option ExtendedCommit) : Pool :=
  if extCommit.any fun ec => ec.height ≠ block.height then pool
  else if block.height < pool.height then pool
  else match pool.requesters[(block.height - pool.height).toNat]? with
  | some none =>
    { pool with requesters :=
      pool.requesters.set (block.height - pool.height).toNat (some ⟨block, extCommit⟩) }
  | _ => pool

end Pool

/-! ### The reactor -/

/-- Hashes, part sets and the evidence pool. -/
structure Env extends Sm.Env where
  /-- The header of `MakePartSet`; none if the block cannot be encoded. -/
  makePartSet : Block → Option PartSetHeader
  /-- `CheckEvidence`, whether it finds nothing wrong. -/
  checkEvidence : Sm.State → List Evidence → Bool

/-- `BlockFromProto`, whether it gives a block. The time was decoded, so that the header can be
hashed. -/
def decodesBlock (p : Hashes) (block : Block) : Bool :=
  match block.lastCommit with
  | none => false
  | some lastCommit => decodesCommit lastCommit ∧ block.validateBasic p = none ∧
    (p.hashHeader (block.fillHeader p lastCommit)).isSome

/-- `handlePeerResponse`. -/
def Pool.handlePeerResponse (env : Env) (pool : Pool) (block : Block)
    (extCommit : Option ExtendedCommit) : Pool :=
  if decodesBlock env.toHashes block ∧ extCommit.all decodesExtendedCommit then
    pool.addBlock block extCommit
  else pool

/-- `VerifyCommitLight`, with the commit of the second block, and then `ValidateBlock`. -/
def verifyFirst (env : Env) (state : Sm.State) (firstID : BlockID) (block : Block)
    (lastCommit : Commit) : Except Sm.Fault Bool := do
  match ← lift (verifyCommitLight env.toScheme state.chainID state.validators firstID block.height
    lastCommit) with
  | some _ => return false
  | none => do
    match ← Sm.validateBlock env.toHashes state block with
    | some _ => return false
    | none => return env.checkEvidence state block.evidence

/-- The checks of `poolRoutine`: whether the first block can be applied. -/
def verdict (env : Env) (state : Sm.State) (firstID : BlockID) (first : Response)
    (lastCommit : Commit) : Except Sm.Fault Bool := do
  let valid ← verifyFirst env state firstID first.block lastCommit
  let extensionsEnabled ←
    lift (state.consensusParams.feature.voteExtensionsEnabled first.block.height)
  return valid ∧ first.extCommit.isSome = extensionsEnabled ∧
    first.extCommit.all fun ec => ec.extendedSignatures.all (ExtendedCommitSig.ensureExtension true)

/-- A block that was applied, with the state before it and the commit that it was verified with. -/
structure Applied where
  state : Sm.State
  block : Block
  blockID : BlockID
  commit : Commit

/-- A node that syncs. The commits of the block store stand beside its blocks. -/
structure Node (τ : Type) where
  pool : Pool
  state : Sm.State
  world : World τ
  commits : CommitStore := {}
  running : Bool := true
  applied : List Applied := []

inductive Event where
  | request
  | redo (i : ℕ)
  | respond (block : Block) (extCommit : Option ExtendedCommit)
  /-- One round of `poolRoutine`, with the height that the peers have reported. -/
  | process (maxPeerHeight : ℤ)

section

variable {τ : Type} (env : Env) (conn : Conn τ)

/-- The commit that is stored with the first block. There is an extended one exactly if extensions are
enabled. -/
def saveCommits (bs : CommitStore) (first : Response) (lastCommit secondLastCommit : Commit) :
    Except Failure CommitStore :=
  match first.extCommit with
  | some ec => bs.saveBlockWithExtendedCommit first.block.height lastCommit ec
  | none => bs.saveBlock first.block.height lastCommit secondLastCommit

/-- The first block is saved and applied; none if that panics. -/
def Node.apply (node : Node τ) (maxPeerHeight : ℤ) (first : Response) (firstID : BlockID)
    (lastCommit secondLastCommit : Commit) : Option (Node τ) :=
  match node.world.blocks.saveBlock first.block firstID,
    saveCommits node.commits first lastCommit secondLastCommit with
  | .ok blocks, .ok commits =>
    let out := Sm.applyVerifiedBlock env.toEnv conn { node.world with blocks := blocks } node.state
      firstID first.block maxPeerHeight
    match out.result with
    | .error _ => none
    | .ok state => some {
        pool := node.pool.popRequest
        state := state
        world := out.world
        commits := commits
        running := node.running
        applied := node.applied ++ [⟨node.state, first.block, firstID, secondLastCommit⟩] }
  | _, _ => none

/-- One round of `poolRoutine`; none if it panics. If the block is not valid the peers are removed, and
the requests to them are made again some time. -/
def Node.process (node : Node τ) (maxPeerHeight : ℤ) : Option (Node τ) :=
  match node.pool.peekTwoBlocks with
  | (some first, some second) =>
    if 0 < node.state.lastBlockHeight ∧ node.state.lastBlockHeight + 1 ≠ first.block.height then none
    else if first.block.height + 1 ≠ second.height then none
    else match env.makePartSet first.block, first.block.lastCommit, second.lastCommit with
    | some partSetHeader, some lastCommit, some secondLastCommit =>
      let firstID := ⟨first.block.hash env.toHashes, partSetHeader⟩
      match verdict env node.state firstID first secondLastCommit with
      | .error _ => none
      | .ok false => some node
      | .ok true => node.apply env conn maxPeerHeight first firstID lastCommit secondLastCommit
    -- the parts cannot be made; the commits are never nil
    | _, _, _ => some { node with running := false }
  | _ => some node

def Node.next (node : Node τ) : Event → Option (Node τ)
  | .request => some { node with pool := node.pool.makeNextRequester }
  | .redo i => some { node with pool := node.pool.redo i }
  | .respond block extCommit =>
    some { node with pool := node.pool.handlePeerResponse env block extCommit }
  | .process maxPeerHeight => if node.running then node.process env conn maxPeerHeight else none

end

/-! ### What is received -/

/-- What is known of an answer to the request for a height. -/
structure Received (env : Env) (requested : ℤ) (r : Response) : Prop where
  height : r.block.height = requested
  decodes : decodesBlock env.toHashes r.block = true
  extHeight : ∀ ec, r.extCommit = some ec → ec.height = requested
  extDecodes : ∀ ec, r.extCommit = some ec → decodesExtendedCommit ec = true

/-- And of all answers in the pool. -/
def Pool.Sound (env : Env) (pool : Pool) : Prop :=
  ∀ (i : ℕ) (r : Response), pool.requesters[i]? = some (some r) → Received env (pool.height + i) r

namespace Pool

variable {env : Env} {pool : Pool}

theorem Sound.makeNextRequester (h : pool.Sound env) : pool.makeNextRequester.Sound env := by
  intro i r hi
  unfold Pool.makeNextRequester at hi
  rcases lt_or_ge i pool.requesters.length with hlt | hge
  · rw [List.getElem?_append_left hlt] at hi
    exact h i r hi
  · rw [List.getElem?_append_right hge] at hi
    cases hcase : i - pool.requesters.length with
    | _ =>
      rw [hcase] at hi
      cases hi

theorem Sound.redo (h : pool.Sound env) (i : ℕ) : (pool.redo i).Sound env := by
  unfold Pool.redo
  split_ifs
  · intro j r hj
    rw [List.getElem?_set] at hj
    split_ifs at hj
    · cases hj
    · exact h j r hj
  · exact h

theorem Sound.handlePeerResponse (h : pool.Sound env) (block : Block)
    (extCommit : Option ExtendedCommit) : (pool.handlePeerResponse env block extCommit).Sound env := by
  unfold Pool.handlePeerResponse
  split_ifs with hdecodes
  · unfold Pool.addBlock
    split_ifs with hext hlt
    · exact h
    · exact h
    · split
      · intro j r hj
        rw [List.getElem?_set] at hj
        split_ifs at hj with hindex
        · cases hj
          refine ⟨by dsimp only; omega, hdecodes.1, ?_, ?_⟩
          · rintro ec rfl
            have hheight : ec.height = block.height := by simpa using hext
            rw [hheight]
            dsimp only
            omega
          · rintro ec rfl
            exact hdecodes.2
        · exact h j r hj
      · exact h
  · exact h

theorem Sound.popRequest (h : pool.Sound env) : pool.popRequest.Sound env := by
  intro i r hi
  unfold Pool.popRequest at hi ⊢
  rw [List.getElem?_tail] at hi
  obtain ⟨h₁, h₂, h₃, h₄⟩ := h (i + 1) r hi
  have heq : pool.height + 1 + (i : ℤ) = pool.height + ((i + 1 : ℕ) : ℤ) := by push_cast; ring
  rw [heq]
  exact ⟨h₁, h₂, h₃, h₄⟩

theorem Sound.peekTwoBlocks (h : pool.Sound env) {first : Response} {second : Block}
    (hpeek : pool.peekTwoBlocks = (some first, some second)) :
    Received env pool.height first ∧ decodesBlock env.toHashes second = true := by
  obtain ⟨hfirst, hsecond⟩ := Prod.mk.inj hpeek
  obtain ⟨r, hr, rfl⟩ := Option.map_eq_some_iff.mp hsecond
  have h₀ := h 0 first (Option.join_eq_some_iff.mp hfirst)
  have h₁ := h 1 r (Option.join_eq_some_iff.mp hr)
  rw [Nat.cast_zero, add_zero] at h₀
  exact ⟨h₀, h₁.decodes⟩

/-- What an event that is not a round does to the pool. -/
structure Keeps (env : Env) (pool pool' : Pool) : Prop where
  height : pool'.height = pool.height
  sound : pool.Sound env → pool'.Sound env

theorem keeps_redo (i : ℕ) : Keeps env pool (pool.redo i) := by
  refine ⟨?_, fun h => h.redo i⟩
  unfold Pool.redo
  split_ifs <;> rfl

theorem keeps_handlePeerResponse (block : Block) (extCommit : Option ExtendedCommit) :
    Keeps env pool (pool.handlePeerResponse env block extCommit) := by
  refine ⟨?_, fun h => h.handlePeerResponse block extCommit⟩
  unfold Pool.handlePeerResponse Pool.addBlock
  split_ifs
  · rfl
  · rfl
  · split <;> rfl
  · rfl

end Pool

/-! ### What is applied -/

section

variable {env : Env} {state : Sm.State} {firstID : BlockID} {first : Response} {commit : Commit}

theorem of_verifyFirst {block : Block} (h : verifyFirst env state firstID block commit = .ok true) :
    verifyCommitLight env.toScheme state.chainID state.validators firstID block.height commit =
        .ok none ∧ Sm.validateBlock env.toHashes state block = .ok none := by
  obtain ⟨e, hcommit, h⟩ := ok_of_bind h
  cases e with
  | some e => cases h
  | none =>
    obtain ⟨e, hvalid, h⟩ := ok_of_bind h
    cases e with
    | some e => cases h
    | none => exact ⟨Sm.lift_eq_ok.mp hcommit, hvalid⟩

/-- What a block that can be applied has passed. -/
structure Passed (env : Env) (state : Sm.State) (firstID : BlockID) (first : Response)
    (commit : Commit) : Prop where
  commit : verifyCommitLight env.toScheme state.chainID state.validators firstID first.block.height
    commit = .ok none
  valid : Sm.validateBlock env.toHashes state first.block = .ok none
  enabled : state.consensusParams.feature.voteExtensionsEnabled first.block.height =
    .ok first.extCommit.isSome
  extensions : ∀ ec, first.extCommit = some ec →
    ec.extendedSignatures.all (ExtendedCommitSig.ensureExtension true) = true

theorem passed_of_verdict (h : verdict env state firstID first commit = .ok true) :
    Passed env state firstID first commit := by
  obtain ⟨valid, hvalid, h⟩ := ok_of_bind h
  obtain ⟨enabled, henabled, h⟩ := ok_of_bind h
  obtain ⟨rfl, rfl, hall⟩ := of_decide_eq_true (Except.ok.inj h)
  obtain ⟨hcommit, hblock⟩ := of_verifyFirst hvalid
  refine ⟨hcommit, hblock, Sm.lift_eq_ok.mp henabled, fun ec hec => ?_⟩
  rw [hec] at hall
  exact hall

end

/-- A state to which blocks can be applied. -/
structure Prepared (crypto : Crypto) (state : Sm.State) : Prop where
  initialHeight : 1 ≤ state.initialHeight
  heights : state.lastBlockHeight = 0 ∨ state.initialHeight ≤ state.lastBlockHeight
  validators : Sm.Live crypto state.validators
  nextValidators : Sm.Live crypto state.nextValidators

/-- **The state after a block** is. -/
theorem Prepared.next {env : Sm.Env} {state state' : Sm.State} {blockID : BlockID} {header : Header}
    {resp : Sm.FinalizeBlockResponse} {updates : List Validator} (h : Prepared env.toCrypto state)
    (hupdates : Sm.pb2tmValidatorUpdates env.toCrypto resp.validatorUpdates = .ok updates)
    (hheight : header.height = state.nextHeight)
    (hnext : Sm.updateState env.hashResults state blockID header resp updates = .ok state') :
    Prepared env.toCrypto state' ∧ state'.nextHeight = header.height + 1 := by
  obtain ⟨⟨vals, c⟩, hvals, hnext⟩ := ok_of_bind hnext
  obtain ⟨⟨params, pc, version⟩, -, hnext⟩ := ok_of_bind hnext
  cases hnext
  have hle : state.initialHeight ≤ header.height := by
    rw [hheight, Sm.State.nextHeight]
    have := h.heights
    split_ifs <;> omega
  have hpos := h.initialHeight
  obtain ⟨hlive, -⟩ := Sm.nextValidatorSet_spec h.nextValidators (Sm.keyed_of_pb2tm hupdates) hvals
  exact ⟨⟨hpos, .inr hle, h.nextValidators, hlive⟩, if_neg (by dsimp only; omega)⟩

section

variable {τ : Type} {env : Env} {conn : Conn τ} {node node' : Node τ} {maxPeerHeight : ℤ}
  {first : Response} {firstID : BlockID} {lastCommit secondLastCommit : Commit}

/-- A block that was saved and applied. -/
theorem Node.of_apply (h : node.apply env conn maxPeerHeight first firstID lastCommit
      secondLastCommit = some node') :
    ∃ resp updates next,
      saveCommits node.commits first lastCommit secondLastCommit = .ok node'.commits ∧
      Sm.pb2tmValidatorUpdates env.toCrypto resp.validatorUpdates = .ok updates ∧
      Sm.updateState env.hashResults node.state firstID first.block.toHeader resp updates = .ok next ∧
      node'.state = { next with appHash := resp.appHash } ∧ node'.pool = node.pool.popRequest ∧
      node'.applied = node.applied ++ [⟨node.state, first.block, firstID, secondLastCommit⟩] := by
  unfold Node.apply at h
  split at h
  · rename_i blocks commits hblocks hcommits
    dsimp only at h
    split at h
    · cases h
    · rename_i state hstate
      cases h
      obtain ⟨-, resp, -, next, -, -, -, -, hnext, rfl, -⟩ := Sm.of_applyVerifiedBlock hstate
      unfold Sm.nextState at hnext
      split at hnext
      · cases hnext
      obtain ⟨updates, hupdates, hnext⟩ := ok_of_bind hnext
      exact ⟨resp, updates, next, hcommits, hupdates, hnext, rfl, rfl, rfl⟩
  · cases h

/-- The first two blocks of the pool, when the first one is applied. -/
structure Node.Taken (env : Env) (node : Node τ) (first : Response) (firstID : BlockID)
    (lastCommit secondLastCommit : Commit) : Prop where
  peeked : ∃ second, node.pool.peekTwoBlocks = (some first, some second) ∧
    second.lastCommit = some secondLastCommit
  lastCommit : first.block.lastCommit = some lastCommit
  partSet : env.makePartSet first.block = some firstID.partSetHeader
  hash : firstID.hash = first.block.hash env.toHashes
  passed : Passed env node.state firstID first secondLastCommit

variable {e : Event} {block : Block} {p : Hashes}

/-- **What a step can do.** Something happens in the pool, or the first block is applied. -/
theorem Node.next_cases (h : node.next env conn e = some node') :
    (∃ pool running, node' = { node with pool := pool, running := running } ∧
      Pool.Keeps env node.pool pool) ∨
    ∃ maxPeerHeight first firstID lastCommit secondLastCommit, e = .process maxPeerHeight ∧
      node.Taken env first firstID lastCommit secondLastCommit ∧
      node.apply env conn maxPeerHeight first firstID lastCommit secondLastCommit = some node' := by
  cases e with
  | request =>
    cases h
    exact .inl ⟨_, node.running, rfl, rfl, Pool.Sound.makeNextRequester⟩
  | redo i =>
    cases h
    exact .inl ⟨_, node.running, rfl, Pool.keeps_redo i⟩
  | respond block extCommit =>
    cases h
    exact .inl ⟨_, node.running, rfl, Pool.keeps_handlePeerResponse block extCommit⟩
  | process maxPeerHeight =>
    have hstay : ∀ running, (some { node with running := running } : Option (Node τ)) = some node' →
        ∃ pool running, node' = { node with pool := pool, running := running } ∧
          Pool.Keeps env node.pool pool := by
      intro running hsome
      cases hsome
      exact ⟨node.pool, running, rfl, rfl, id⟩
    unfold Node.next at h
    dsimp only at h
    split_ifs at h
    unfold Node.process at h
    split at h
    · rename_i first second hpeek
      split_ifs at h
      split at h
      · rename_i partSetHeader lastCommit secondLastCommit hparts hlast hsecond
        dsimp only at h
        split at h
        · cases h
        · exact .inl (hstay node.running h)
        · rename_i hverdict
          exact .inr ⟨maxPeerHeight, first, _, lastCommit, secondLastCommit, rfl,
            ⟨⟨second, hpeek, hsecond⟩, hlast, hparts, rfl, passed_of_verdict hverdict⟩, h⟩
      · exact .inl (hstay false h)
    · exact .inl (hstay node.running h)

/-! ### The commits that are stored -/

/-- The sizes of hashes, and that a part set has a part. -/
structure Env.Hashing (env : Env) : Prop where
  header : ∀ header hash, env.hashHeader header = some hash → hash.length = hashSize
  validators : ∀ vals, env.hashValidators vals ≠ []
  partSet : ∀ block header, env.makePartSet block = some header →
    0 < header.total ∧ header.hash.length = hashSize

theorem validatorsHash_of_validateBlock {state : Sm.State}
    (h : Sm.validateBlock p state block = .ok none) :
    block.validatorsHash = state.validators.hash p.toPrimitives := by
  obtain ⟨lastCommit, -, -, hinfo, -⟩ := Sm.validateBlock_eq_none.mp h
  unfold Sm.validateBasicInfo at hinfo
  iterate 8 obtain ⟨-, hinfo⟩ := of_check_eq_none hinfo
  exact not_not.mp (of_check_eq_none hinfo).1

/-- The id of a block that is applied is complete. -/
theorem Node.Taken.isComplete (hhashing : env.Hashing)
    (h : node.Taken env first firstID lastCommit secondLastCommit)
    (hdecodes : decodesBlock env.toHashes first.block = true) : firstID.isComplete = true := by
  refine decide_eq_true ⟨?_, hhashing.partSet _ _ h.partSet⟩
  unfold decodesBlock at hdecodes
  rw [h.lastCommit] at hdecodes
  obtain ⟨-, -, hsome⟩ := of_decide_eq_true hdecodes
  obtain ⟨hash, hhash⟩ := Option.isSome_iff_exists.mp hsome
  have hne : first.block.validatorsHash ≠ [] := by
    rw [validatorsHash_of_validateBlock h.passed.valid]
    exact hhashing.validators _
  have heq : first.block.hash env.toHashes = hash := by
    unfold Block.hash
    rw [h.lastCommit]
    show (if first.block.validatorsHash = [] then _ else _) = _
    rw [if_neg hne]
    exact congrArg (Option.getD · []) hhash
  rw [h.hash, heq]
  exact hhashing.header _ _ hhash

theorem height_pos_of_decodes (h : decodesBlock p block = true) :
    0 < block.height := by
  unfold decodesBlock at h
  split at h
  · cases h
  obtain ⟨-, hbasic, -⟩ := of_decide_eq_true h
  unfold Block.validateBasic at hbasic
  obtain ⟨-, -, hpos, -⟩ := of_decide_eq_true (Bool.of_not_eq_false (of_check_eq_none hbasic).1)
  exact hpos

theorem lastCommit_of_decodes {commit : Commit} (h : decodesBlock p block = true)
    (hlast : block.lastCommit = some commit) :
    decodesCommit commit = true := by
  unfold decodesBlock at h
  rw [hlast] at h
  exact (of_decide_eq_true h).1

/-- The commit of the second block has a quorum for the first. -/
theorem Node.Taken.quorum (hscheme : env.toScheme.Faithful)
    (hvals : Sm.Storable env.toCrypto node.state.validators)
    (h : node.Taken env first firstID lastCommit secondLastCommit) :
    first.block.height = secondLastCommit.height ∧ firstID = secondLastCommit.blockID ∧
      secondLastCommit.SignedByMoreThan env.toCrypto node.state.chainID first.block.height
        secondLastCommit.round firstID node.state.validators 2 3 ∧
      Quorum node.state.validators.indices node.state.validators.power
        (secondLastCommit.signers node.state.validators) := by
  have hflag : ∀ sig : CommitSig, decide (sig.blockIDFlag ≠ .commit) = false → true = true →
      sig.blockIDFlag = .commit :=
    fun sig hsig _ => not_not.mp (of_decide_eq_false hsig)
  have hcommit := h.passed.commit
  unfold verifyCommitLight verifyCommitLightInternal at hcommit
  obtain ⟨-, hheight, hid⟩ := basic_of_verifyTwoThirds hcommit
  exact ⟨hheight, hid, (verifyTwoThirds_sound hscheme hvals.validateBasic hvals.cached hflag hcommit).1,
    Commit.quorum_of_verifyTwoThirds hscheme hvals.validateBasic hvals.cached hflag hcommit⟩

/-- Each signature of the commit that is stored is valid, under the key and beside the address of the
validator at its index. An extended commit is for the block, by more than two thirds of the power, and
the signatures of its extensions are valid too. -/
def StoredGenuine (crypto : Crypto) (state : Sm.State) (firstID : BlockID) (first : Response)
    (commit : Commit) : Prop :=
  match first.extCommit with
  | none => commit.Genuine crypto state.chainID state.validators
  | some ec => ec.blockID = firstID ∧ ec.Genuine crypto state.chainID state.validators ∧
    Quorum state.validators.indices state.validators.power (ec.toCommit.signers state.validators)

/-- If a round applies a block, the commit that it stores is. -/
def Node.Unforged (env : Env) (node : Node τ) : Event → Prop
  | .process _ => ∀ first firstID lastCommit secondLastCommit,
    node.Taken env first firstID lastCommit secondLastCommit →
    StoredGenuine env.toCrypto node.state firstID first secondLastCommit
  | _ => True

/-- A start reads the commit that is stored, and finds a majority for the last block. -/
def Node.Startable (env : Env) (node : Node τ) : Prop :=
  ∃ vs, reconstructLastCommit env.toCrypto node.commits node.state = .ok vs ∧
    vs.maj23 = some node.state.lastBlockID

theorem formed_of_decodes {commit : Commit} (h : decodesCommit commit = true)
    (hheight : 0 < commit.height) (hid : commit.blockID.isComplete = true) : commit.Formed := by
  obtain ⟨-, hbasic, hvalid⟩ := of_decide_eq_true h
  obtain ⟨-, hround, -⟩ := of_decide_eq_true hvalid
  exact ⟨hheight, hround, hid, hbasic⟩

theorem formed_of_decodesExtended {ec : ExtendedCommit} (h : decodesExtendedCommit ec = true)
    (hheight : 0 < ec.height) (hid : ec.blockID.isComplete = true) : ec.toCommit.Formed := by
  obtain ⟨-, hbasic, hvalid⟩ := of_decide_eq_true h
  obtain ⟨-, hround, -⟩ := of_decide_eq_true hvalid
  refine ⟨hheight, hround, hid, fun sig hsig => ?_⟩
  obtain ⟨ecs, hecs, rfl⟩ := List.mem_map.mp hsig
  exact (Bool.and_eq_true_iff.mp (hbasic ecs hecs)).1

/-- What the state after a block has of the one before. -/
theorem Node.state_of_apply (h : node.apply env conn maxPeerHeight first firstID lastCommit
      secondLastCommit = some node') :
    node'.state.chainID = node.state.chainID ∧
      node'.state.lastBlockHeight = first.block.height ∧ node'.state.lastBlockID = firstID ∧
      node'.state.lastValidators = node.state.validators ∧
      node'.state.consensusParams.feature.voteExtensionsEnabled first.block.height =
        node.state.consensusParams.feature.voteExtensionsEnabled first.block.height := by
  obtain ⟨resp, updates, next, -, -, hnext, hnode, -⟩ := Node.of_apply h
  obtain ⟨hchain, hlast, hlastID, hlastVals, henabled⟩ := of_updateState hnext
  rw [hnode]
  exact ⟨hchain, hlast, hlastID, hlastVals, (henabled _ le_rfl).1⟩

/-- **A block that is applied** leaves a state that can be started from, if the commit that is stored
is genuine. -/
theorem Node.Taken.startable (hscheme : env.toScheme.Faithful) (hhashing : env.Hashing)
    (hstate : Prepared env.toCrypto node.state)
    (h : node.Taken env first firstID lastCommit secondLastCommit)
    (hfirst : Received env node.pool.height first)
    (hsecond : decodesCommit secondLastCommit = true)
    (hgenuine : StoredGenuine env.toCrypto node.state firstID first secondLastCommit)
    (happly : node.apply env conn maxPeerHeight first firstID lastCommit secondLastCommit =
      some node') : node'.Startable env := by
  have hvals := hstate.validators.toStorable
  have hid := h.isComplete hhashing hfirst.decodes
  have hpos := height_pos_of_decodes hfirst.decodes
  obtain ⟨hheight, hcommitID, -, hq⟩ := h.quorum hscheme hvals
  obtain ⟨-, -, -, hsave, -⟩ := Node.of_apply happly
  obtain ⟨hchain, hlast, hlastID, hlastVals, henabled⟩ := Node.state_of_apply happly
  rw [h.passed.enabled, ← hlast] at henabled
  unfold saveCommits at hsave
  unfold StoredGenuine at hgenuine
  rw [← hlastVals] at hvals hq hgenuine
  rw [← hchain] at hgenuine
  cases hext : first.extCommit with
  | none =>
    rw [hext] at hsave hgenuine henabled
    have hload := CommitStore.load_of_saveBlock hsecond hsave
    rw [← hlast] at hload
    have hformed := formed_of_decodes hsecond (hheight ▸ hpos) (hcommitID ▸ hid)
    obtain ⟨vs, hvs, hmaj⟩ := hformed.toVoteSet hvals.valid hvals.addressed hgenuine hq
    rw [← hcommitID, ← hlastID] at hmaj
    exact ⟨vs, reconstructLastCommit_of_seen henabled hload (hheight.symm.trans hlast.symm) hvs hmaj,
      hmaj⟩
  | some ec =>
    rw [hext] at hsave hgenuine henabled
    obtain ⟨hecID, hecGenuine, hecq⟩ := hgenuine
    have hecHeight : ec.height = first.block.height :=
      (hfirst.extHeight ec hext).trans hfirst.height.symm
    have hecDecodes := hfirst.extDecodes ec hext
    have hload := CommitStore.load_of_saveBlockWithExtendedCommit hsave
    rw [if_pos hecDecodes, ← hlast] at hload
    have hformed := formed_of_decodesExtended hecDecodes (hecHeight ▸ hpos) (hecID ▸ hid)
    obtain ⟨vs, hvs, hmaj⟩ := ExtendedCommit.toExtendedVoteSet_of_genuine hformed hvals.valid
      hvals.addressed hecGenuine (of_decide_eq_true hecDecodes).2.1 (h.passed.extensions ec hext) hecq
    rw [hecID, ← hlastID] at hmaj
    exact ⟨vs, reconstructLastCommit_of_extended henabled hload (hecHeight.trans hlast.symm) hvs hmaj,
      hmaj⟩

/-! ### Runs -/

/-- A block that was applied had the next height and was valid, and more than two thirds of the
validators have signed it. -/
structure Applied.Verified (env : Env) (a : Applied) : Prop where
  height : a.block.height = a.state.nextHeight
  hash : a.blockID.hash = a.block.hash env.toHashes
  signed : a.commit.SignedByMoreThan env.toCrypto a.state.chainID a.block.height a.commit.round
    a.blockID a.state.validators 2 3
  valid : Sm.validateBlock env.toHashes a.state a.block = .ok none

/-- What holds while a node syncs. -/
structure Node.Good (env : Env) (node : Node τ) : Prop where
  prepared : Prepared env.toCrypto node.state
  pool : node.pool.Sound env
  height : node.pool.height = node.state.nextHeight
  applied : ∀ a ∈ node.applied, a.Verified env

theorem Node.Good.received (hgood : node.Good env)
    (h : node.Taken env first firstID lastCommit secondLastCommit) :
    Received env node.pool.height first ∧ decodesCommit secondLastCommit = true := by
  obtain ⟨second, hpeek, hsecond⟩ := h.peeked
  obtain ⟨hfirst, hdecodes⟩ := hgood.pool.peekTwoBlocks hpeek
  exact ⟨hfirst, lastCommit_of_decodes hdecodes hsecond⟩

/-- **One step.** -/
theorem Node.Good.next (hscheme : env.toScheme.Faithful) (hgood : node.Good env)
    (h : node.next env conn e = some node') : node'.Good env := by
  rcases Node.next_cases h with ⟨pool, running, rfl, hkeeps⟩ |
    ⟨maxPeerHeight, first, firstID, lastCommit, secondLastCommit, rfl, htaken, happly⟩
  · exact ⟨hgood.prepared, hkeeps.sound hgood.pool, hkeeps.height.trans hgood.height, hgood.applied⟩
  · obtain ⟨hfirst, -⟩ := hgood.received htaken
    obtain ⟨resp, updates, next, -, hupdates, hnext, hstate, hpool, happlied⟩ := Node.of_apply happly
    have hheight : first.block.height = node.state.nextHeight := hfirst.height.trans hgood.height
    obtain ⟨hprepared, hnextHeight⟩ := hgood.prepared.next hupdates hheight hnext
    obtain ⟨-, -, hsigned, -⟩ := htaken.quorum hscheme hgood.prepared.validators.toStorable
    refine ⟨?_, hpool ▸ hgood.pool.popRequest, ?_, ?_⟩
    · rw [hstate]
      exact ⟨hprepared.initialHeight, hprepared.heights, hprepared.validators,
        hprepared.nextValidators⟩
    · rw [hpool, hstate]
      show node.pool.height + 1 = next.nextHeight
      rw [hnextHeight, hgood.height]
      exact congrArg (· + 1) hheight.symm
    · rw [happlied]
      intro a ha
      rcases List.mem_append.mp ha with hold | hnew
      · exact hgood.applied a hold
      · rw [List.mem_singleton.mp hnew]
        exact ⟨hheight, htaken.hash, hsigned, htaken.passed.valid⟩

/-- **One step, if it is not forged.** -/
theorem Node.Good.next_startable (hscheme : env.toScheme.Faithful) (hhashing : env.Hashing)
    (hgood : node.Good env) (hstart : node.applied ≠ [] → node.Startable env)
    (hunforged : node.Unforged env e) (h : node.next env conn e = some node') :
    node'.applied ≠ [] → node'.Startable env := by
  rcases Node.next_cases h with ⟨pool, running, rfl, -⟩ |
    ⟨maxPeerHeight, first, firstID, lastCommit, secondLastCommit, rfl, htaken, happly⟩
  · exact hstart
  · obtain ⟨hfirst, hsecond⟩ := hgood.received htaken
    exact fun _ => htaken.startable hscheme hhashing hgood.prepared hfirst hsecond
      (hunforged first firstID lastCommit secondLastCommit htaken) happly

/-- **Block sync.** Whatever the peers send, each block that is applied has the next height, passes
`ValidateBlock`, and has behind it a commit that was signed by more than two thirds of the validators.
If each signature in the commits that are stored is valid, and an extended commit is one of the block,
the node can be started after each of them. -/
theorem sync_startable (hscheme : env.toScheme.Faithful) (hhashing : env.Hashing)
    {node₀ : Node τ} (hstate : Prepared env.toCrypto node₀.state)
    (hpool : node₀.pool = ⟨node₀.state.nextHeight, []⟩) (happlied : node₀.applied = []) :
    (∀ node, Reachable (Node.next env conn) node₀ node → ∀ a ∈ node.applied, a.Verified env) ∧
    ∀ node, Steps (Node.next env conn) (Node.Unforged env) node₀ node → node.applied ≠ [] →
      node.Startable env := by
  have hgood₀ : node₀.Good env := by
    refine ⟨hstate, fun i r hi => ?_, congrArg Pool.height hpool, fun a ha => ?_⟩
    · rw [hpool, List.getElem?_nil] at hi
      cases hi
    · rw [happlied] at ha
      cases ha
  have hgood : ∀ {ok} {node : Node τ}, Steps (Node.next env conn) ok node₀ node → node.Good env :=
    fun hrun => hrun.invariant hgood₀ fun _ _ _ hgood _ h => hgood.next hscheme h
  refine ⟨fun node hrun => (hgood hrun).applied, fun node hrun => ?_⟩
  exact hrun.invariant_of (fun _ hrun => hgood hrun) (fun hne => absurd happlied hne)
    fun _ _ _ hgood hstart hunforged h => hgood.next_startable hscheme hhashing hstart hunforged h

end

/-! ### A signature too many -/

open Sm (keyOf validatorOf signatureOf)

def syncEnv : Env where
  toEnv := keyedEnv
  makePartSet _ := some ⟨1, List.replicate 32 8⟩
  checkEvidence _ _ := true

/-- The application counts the blocks. -/
def syncConn : Conn ℕ where
  finalizeBlock _ n := (⟨[], [], none, [UInt8.ofNat (n + 1)]⟩, n + 1)
  commit := id

/-- A node of two validators, with three quarters of the power and one quarter, at the start. -/
def atGenesis : Except Sm.Fault (Node ℕ) := do
  let state ← Sm.makeGenesisState syncEnv.toCrypto 0 (genesisAt 1)
  let store ← Sm.Store.save {} state
  return { pool := ⟨state.nextHeight, []⟩, state := state, world := { store := store, app := 0 } }

def syncedID : BlockID := ⟨1 :: List.replicate 31 2, ⟨1, List.replicate 32 8⟩⟩

/-- The second block, with the signatures for the first. -/
def nextBlock (signatures : List CommitSig) : Block :=
  { Sm.secondBlock 10 [] with lastBlockID := syncedID, lastCommit := some ⟨1, 0, syncedID, signatures⟩ }

/-- A peer sends the first two blocks. -/
def synced (signatures : List CommitSig) : List Event :=
  [.request, .request, .respond (firstBlock 1).block none, .respond (nextBlock signatures) none]

/-- The signature of the first validator, and one beside the address of the second that is not
valid. -/
def oneForged : List CommitSig :=
  [signatureOf 1 10 (List.replicate 20 1), ⟨.commit, List.replicate 20 2, 10, [1]⟩]

/-- **A node that cannot start any more.** The first signature is enough to verify the first block,
so that the second one is not looked at. -/
theorem sync_unstartable : ∃ node₀ node, atGenesis = .ok node₀ ∧
    exec (Node.next syncEnv syncConn) node₀ (synced oneForged ++ [.process 2]) = some node ∧
    node.state.lastBlockHeight = 1 ∧
    reconstructLastCommit syncEnv.toCrypto node.commits node.state =
      .error (.panic "failed to reconstruct vote set from commit") := by
  obtain ⟨node₀, node, hnode₀, hnode, hheight, hfails⟩ : ∃ node₀ node, atGenesis = .ok node₀ ∧
      exec (Node.next syncEnv syncConn) node₀ (synced oneForged ++ [.process 2]) = some node ∧
      node.state.lastBlockHeight = 1 ∧
      (reconstructLastCommit syncEnv.toCrypto node.commits node.state).map (fun _ => ()) =
        .error (.panic "failed to reconstruct vote set from commit") :=
    exists_of_any (by decide +kernel)
  refine ⟨node₀, node, hnode₀, hnode, hheight, ?_⟩
  cases hreconstruct : reconstructLastCommit syncEnv.toCrypto node.commits node.state with
  | ok vs =>
    rw [hreconstruct] at hfails
    cases hfails
  | error e =>
    rw [hreconstruct] at hfails
    exact congrArg Except.error (Except.error.inj hfails)

theorem syncEnv_hashing : syncEnv.Hashing where
  header header hash h := by
    cases h
    rfl
  validators _ := nofun
  partSet block header h := by
    cases h
    decide

theorem of_atGenesis {node₀ : Node ℕ} (h : atGenesis = .ok node₀) :
    Prepared syncEnv.toCrypto node₀.state ∧ node₀.pool = ⟨node₀.state.nextHeight, []⟩ ∧
      node₀.applied = [] := by
  obtain ⟨state, hstate, h⟩ := ok_of_bind h
  obtain ⟨store, -, h⟩ := ok_of_bind h
  cases h
  have hfounded := Sm.founded_of_makeGenesisState hstate (by decide) (by decide)
  exact ⟨⟨hfounded.initialHeight, .inl hfounded.lastBlockHeight, hfounded.validators,
    hfounded.nextValidators⟩, rfl, rfl⟩

/-- The signatures of both validators. -/
def bothSigned : List CommitSig :=
  [signatureOf 1 10 (List.replicate 20 1), signatureOf 2 10 (List.replicate 20 2)]

theorem genuine_bothSigned :
    Commit.Genuine syncEnv.toCrypto "chain" Sm.twoVals ⟨1, 0, syncedID, bothSigned⟩ := by
  intro i sig hsig _
  match i with
  | 0 =>
    cases hsig
    exact ⟨_, rfl, rfl, ⟨keyOf 1, [10], _, rfl, rfl, by decide, by decide⟩⟩
  | 1 =>
    cases hsig
    exact ⟨_, rfl, rfl, ⟨keyOf 2, [10], _, rfl, rfl, by decide, by decide⟩⟩
  | i + 2 => cases hsig

/-- A peer sends the two blocks as they are. -/
theorem sync_startable_genuine : ∃ node₀ node, atGenesis = .ok node₀ ∧
    Steps (Node.next syncEnv syncConn) (Node.Unforged syncEnv) node₀ node ∧
    node.applied.map Applied.block = [(firstBlock 1).block] ∧ node.Startable syncEnv := by
  obtain ⟨node₀, mid, hnode₀, hmid, hvals, hchain, hpool, hlast⟩ : ∃ node₀ mid,
      atGenesis = .ok node₀ ∧
      exec (Node.next syncEnv syncConn) node₀ (synced bothSigned) = some mid ∧
      mid.state.validators = Sm.twoVals ∧ mid.state.chainID = "chain" ∧
      mid.pool = ⟨1, [some ⟨(firstBlock 1).block, none⟩, some ⟨nextBlock bothSigned, none⟩]⟩ ∧
      (Node.next syncEnv syncConn mid (.process 2)).map (fun node => node.applied.map Applied.block) =
        some [(firstBlock 1).block] :=
    exists_of_any (by decide +kernel)
  obtain ⟨node, hnode, happlied⟩ := Option.map_eq_some_iff.mp hlast
  obtain ⟨hprepared, hpool₀, happlied₀⟩ := of_atGenesis hnode₀
  have hunforged : mid.Unforged syncEnv (.process 2) := by
    intro first firstID lastCommit secondLastCommit htaken
    obtain ⟨second, hpeek, hsecond⟩ := htaken.peeked
    rw [hpool] at hpeek
    cases hpeek
    cases hsecond
    unfold StoredGenuine
    dsimp only
    rw [hvals, hchain]
    exact genuine_bothSigned
  have hsteps : Steps (Node.next syncEnv syncConn) (Node.Unforged syncEnv) node₀ node := by
    refine Steps.tail (steps_of_exec_of (fun e he s => ?_) hmid) hunforged hnode
    simp only [synced, List.mem_cons, List.not_mem_nil, or_false] at he
    rcases he with rfl | rfl | rfl | rfl <;> trivial
  refine ⟨node₀, node, hnode₀, hsteps, happlied, ?_⟩
  refine (sync_startable Sm.keyedScheme_faithful syncEnv_hashing hprepared hpool₀ happlied₀).2 node
    hsteps ?_
  intro hnil
  rw [hnil] at happlied
  cases happlied

end Blocksync

end CometBFT
