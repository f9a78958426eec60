import CometBFT.Evidence.Verify
import CometBFT.State.Rollback

/-!
# The evidence pool

The model of `internal/evidence/pool.go`. The pool keeps evidence that is pending, until it is committed
or has expired. The database has a record for each, by height and hash, in this order.

`CheckEvidence` verifies the evidence of a block. Duplicate votes that are pending were verified before,
and are not verified again. So two nodes agree about a block if what is pending would still be accepted.
Evidence expires with the blocks; but `Update` prunes it one block and one second later.

The votes that consensus reports are not verified at all. They are when they come from there: two votes
of one validator that were both added to the same vote set.

Of the chain, the stores of a node have some heights; which ones changes. What they have is always that
of the chain.

## Main results

* `part_and_follows` — the stores and the state of a node that commits blocks are such
* `Pool.Good.next` — what is pending was verified against the chain, and is not committed
* `pools_agree` — `CheckEvidence` has the same result in two pools, if the duplicate votes that are
  pending in one of them have not expired
* `pools_disagree` — it has not, once they have
* `reported_verifies` — evidence that a pool makes of reported votes is accepted by every node
-/

namespace CometBFT.Evpool

open CometBFT.Types List Sm Prod

/-! ### The database -/

/-- The key of a record, after the prefix: the height and the hash. -/
abbrev Key := ℤ × Bytes

/-- How the database orders the keys. -/
def keyLess (a b : Key) : Prop := a.1 < b.1 ∨ a.1 = b.1 ∧ a.2 < b.2

instance (a b : Key) : Decidable (keyLess a b) := inferInstanceAs (Decidable (_ ∨ _))

/-- `Set`, in the order of the keys. -/
def setRecord (k : Key) (ev : Evidence) : List (Key × Evidence) → List (Key × Evidence)
  | [] => [(k, ev)]
  | r :: rest =>
    if keyLess k r.1 then (k, ev) :: r :: rest
    else if k = r.1 then (k, ev) :: rest
    else r :: setRecord k ev rest

theorem mem_setRecord {k : Key} {ev : Evidence} {l : List (Key × Evidence)} {r : Key × Evidence}
    (h : r ∈ setRecord k ev l) : r = (k, ev) ∨ r ∈ l := by
  induction l with
  | nil => exact .inl (mem_singleton.mp h)
  | cons r' rest ih =>
    unfold setRecord at h
    split_ifs at h
    · exact mem_cons.mp h
    · rcases mem_cons.mp h with h | h
      · exact .inl h
      · exact .inr (mem_cons_of_mem _ h)
    · rcases mem_cons.mp h with rfl | h
      · exact .inr mem_cons_self
      · rcases ih h with h | h
        · exact .inl h
        · exact .inr (mem_cons_of_mem _ h)

/-! ### The pool -/

structure Env extends Primitives where
  /-- `DuplicateVoteEvidence.Bytes`. -/
  bytes : DuplicateVoteEvidence → Bytes
  /-- Whether the evidence can be encoded. -/
  marshals : Evidence → Bool

/-- `Evidence.Hash`. Of an attack on a light client it covers the common height and all but the last byte
of the hash of the conflicting header, so that evidence with another commit has the same. -/
def Env.hash (env : Env) : Evidence → Bytes
  | .duplicateVote dve => env.sum (env.bytes dve)
  | .lightClientAttack l => env.sum
    (((l.conflictingBlock.hash env.toPrimitives).take 31).rightpad 32 0 ++ putVarint l.commonHeight)

/-- The key of a piece of evidence. -/
def Env.key (env : Env) (ev : Evidence) : Except Fault Key := do
  return (← lift (evidenceHeight ev), env.hash ev)

theorem Env.hash_of_key {env : Env} {ev : Evidence} {k : Key} (h : env.key ev = .ok k) :
    env.hash ev = k.2 := by
  obtain ⟨height, -, h⟩ := ok_of_bind h
  cases h
  rfl

structure Pool where
  state : State
  stores : Stores
  pending : List (Key × Evidence) := []
  committed : List Key := []
  evidenceSize : UInt32 := 0
  consensusBuffer : List (Vote × Vote) := []
  pruningHeight : ℤ
  pruningTime : Time

/-- `NewPool`, with an empty database. -/
def newPool (state : State) (stores : Stores) : Pool where
  state := state
  stores := stores
  pruningHeight := state.lastBlockHeight
  pruningTime := state.lastBlockTime

/-- The errors of `AddEvidence` and `CheckEvidence`. -/
inductive PoolError where
  | invalid (ev : Evidence) (reason : VerifyError)
  | unverified (reason : VerifyError)
  | cannotAdd (ev : Evidence)
  | alreadyCommitted (ev : Evidence)
  | duplicate (ev : Evidence)
deriving DecidableEq, Repr

namespace Pool

variable (env : Env) (pool : Pool)

def isPending (k : Key) : Bool := pool.pending.any fun r => r.1 = k

def isCommitted (k : Key) : Bool := k ∈ pool.committed

/-- The size counts each time a record is set. -/
def addPendingEvidence (k : Key) (ev : Evidence) : Option Pool :=
  if env.marshals ev then
    some { pool with
      pending := setRecord k ev pool.pending
      evidenceSize := pool.evidenceSize + 1 }
  else none

def removePendingEvidence (k : Key) : Pool :=
  { pool with
    pending := pool.pending.filter fun r => r.1 ≠ k
    evidenceSize := pool.evidenceSize - 1 }

/-- `AddEvidence`, for evidence that is neither pending nor committed. -/
def addVerified (k : Key) (ev : Evidence) : Except Fault (Pool × Option PoolError) := do
  match ← verify env.toPrimitives pool.stores pool.state ev with
  | some err => return (pool, some (.invalid ev err))
  | none =>
    match pool.addPendingEvidence env k ev with
    | none => return (pool, some (.cannotAdd ev))
    | some pool => return (pool, none)

def addEvidence (ev : Evidence) : Except Fault (Pool × Option PoolError) := do
  let k ← env.key ev
  if pool.isPending k ∨ pool.isCommitted k then return (pool, none)
  else pool.addVerified env k ev

def reportConflictingVotes (voteA voteB : Vote) : Pool :=
  { pool with consensusBuffer := pool.consensusBuffer ++ [(voteA, voteB)] }

/-- Whether the evidence is verified even if it is pending. -/
def isLightEv : Evidence → Bool
  | .duplicateVote _ => false
  | .lightClientAttack _ => true

/-- `CheckEvidence`, for one piece of evidence. -/
def checkOne (k : Key) (ev : Evidence) : Except Fault (Pool × Option PoolError) :=
  if isLightEv ev ∨ ¬pool.isPending k then
    if pool.isCommitted k then .ok (pool, some (.alreadyCommitted ev))
    else do
      match ← verify env.toPrimitives pool.stores pool.state ev with
      | some err => return (pool, some (.unverified err))
      | none => return ((pool.addPendingEvidence env k ev).getD pool, none)
  else .ok (pool, none)

/-- The loop of `CheckEvidence`, with the hashes of the evidence before. -/
def checkLoop (pool : Pool) (hashes : List Bytes) :
    List Evidence → Except Fault (Pool × Option PoolError)
  | [] => .ok (pool, none)
  | ev :: rest => do
    let k ← env.key ev
    match ← pool.checkOne env k ev with
    | (pool, some err) => return (pool, some err)
    | (pool, none) =>
      if env.hash ev ∈ hashes then return (pool, some (.duplicate ev))
      else checkLoop pool (env.hash ev :: hashes) rest

def checkEvidence (evList : List Evidence) : Except Fault (Pool × Option PoolError) :=
  pool.checkLoop env [] evList

/-! #### `Update` -/

/-- `NewDuplicateVoteEvidence`; none if the validator is not in the set. -/
def newDuplicateVoteEvidence (vote₁ vote₂ : Vote) (blockTime : Time) (valSet : ValidatorSet) :
    Except Failure (Option DuplicateVoteEvidence) :=
  match valSet.getByAddress vote₁.validatorAddress with
  | none => .ok none
  | some (_, val) => do
    let total ← valSet.getTotalVotingPower
    let (voteA, voteB) := if vote₁.blockID.key < vote₂.blockID.key then (vote₁, vote₂)
      else (vote₂, vote₁)
    return some ⟨voteA, voteB, total, val.votingPower, blockTime⟩

/-- The evidence of two votes, in the new state; none if there is an error. -/
def evidenceOf (state : State) (voteA voteB : Vote) :
    Except Fault (Option DuplicateVoteEvidence) :=
  if voteA.height = state.lastBlockHeight then
    lift (newDuplicateVoteEvidence voteA voteB state.lastBlockTime state.lastValidators)
  else if voteA.height < state.lastBlockHeight then
    match pool.stores.validators voteA.height with
    | .error (.err _) => .ok none
    | .error (.panic text) => .error (.panic text)
    | .ok valSet =>
      match pool.stores.header voteA.height with
      | none => .ok none
      | some header => lift (newDuplicateVoteEvidence voteA voteB header.time valSet)
  else .ok none

/-- The pool with the evidence, unless it is pending or committed or cannot be encoded. -/
def addReported (dve : DuplicateVoteEvidence) : Except Fault Pool := do
  let k ← env.key (.duplicateVote dve)
  if pool.isPending k ∨ pool.isCommitted k then return pool
  else return (pool.addPendingEvidence env k (.duplicateVote dve)).getD pool

def addConflicting (state : State) (pool : Pool) (votes : Vote × Vote) :
    Except Fault Pool := do
  match ← pool.evidenceOf state votes.1 votes.2 with
  | none => return pool
  | some dve => pool.addReported env dve

def processConsensusBuffer (state : State) : Except Fault Pool := do
  let pool ← pool.consensusBuffer.foldlM (addConflicting env state) pool
  return { pool with consensusBuffer := [] }

def markOne (pool : Pool) (ev : Evidence) : Except Fault Pool := do
  let k ← env.key ev
  let pool := if pool.isPending k then pool.removePendingEvidence k else pool
  return { pool with committed := k :: pool.committed }

def markEvidenceAsCommitted (evidence : List Evidence) : Except Fault Pool :=
  evidence.foldlM (markOne env) pool

/-- `isExpired`. -/
def isExpired (height : ℤ) (time : Time) : Bool :=
  isEvidenceExpired pool.state.lastBlockHeight pool.state.lastBlockTime height time
    pool.state.consensusParams.evidence

/-- The loop of `removeExpiredPendingEvidence`: what remains, how much was removed, and the first
evidence that has not expired. A record that does not decode is passed over. -/
def expireLoop : List (Key × Evidence) → List (Key × Evidence) × UInt32 × Option (Key × Evidence)
  | [] => ([], 0, none)
  | r :: rest =>
    if r.2.validateBasic env.toPrimitives = false then
      let (kept, removed, first) := expireLoop rest
      (r :: kept, removed, first)
    else if pool.isExpired r.1.1 (evidenceTime r.2) = false then (r :: rest, 0, some r)
    else
      let (kept, removed, first) := expireLoop rest
      (kept, removed + 1, first)

def second : ℤ := 1000000000

/-- `removeExpiredPendingEvidence`, with the height and time of the next pruning. -/
def removeExpiredPendingEvidence : Pool :=
  let (kept, removed, first) := pool.expireLoop env pool.pending
  let params := pool.state.consensusParams.evidence
  { pool with
    pending := kept
    evidenceSize := pool.evidenceSize - removed
    pruningHeight := match first with
      | some r => wrap64 (r.1.1 + params.maxAgeNumBlocks + 1)
      | none => pool.state.lastBlockHeight
    pruningTime := match first with
      | some r => evidenceTime r.2 + params.maxAgeDuration + second
      | none => pool.state.lastBlockTime }

/-- The end of `Update`. -/
def prune : Pool :=
  if 0 < pool.evidenceSize ∧ pool.pruningHeight < pool.state.lastBlockHeight ∧
      pool.pruningTime < pool.state.lastBlockTime then
    pool.removeExpiredPendingEvidence env
  else pool

def update (state : State) (evidence : List Evidence) : Except Fault Pool :=
  if state.lastBlockHeight ≤ pool.state.lastBlockHeight then
    .error (.panic
      "failed EvidencePool.Update new state height is less than or equal to previous state height")
  else do
    let pool ← pool.processConsensusBuffer env state
    let pool ← { pool with state := state }.markEvidenceAsCommitted env evidence
    return pool.prune env

end Pool

/-- What is done with a pool. The stores change independently of it. -/
inductive Event where
  | addEvidence (ev : Evidence)
  | reportConflictingVotes (voteA voteB : Vote)
  | checkEvidence (evList : List Evidence)
  | update (state : State) (evidence : List Evidence)
  | stores (stores : Stores)

/-- The pool after a call, if that does not panic. -/
def Pool.next (env : Env) (pool : Pool) : Event → Option Pool
  | .addEvidence ev => (pool.addEvidence env ev).toOption.map fst
  | .reportConflictingVotes voteA voteB => some (pool.reportConflictingVotes voteA voteB)
  | .checkEvidence evList => (pool.checkEvidence env evList).toOption.map fst
  | .update state evidence => (pool.update env state evidence).toOption
  | .stores stores => some { pool with stores := stores }

/-! ### The chain -/

/-- What the stores of all nodes have parts of. -/
structure Chain where
  chainID : String
  header : ℤ → Option Header
  validators : ℤ → Option ValidatorSet

/-- The sets agree in all but the priorities and the proposer. -/
structure SameVoters (vals vals' : ValidatorSet) : Prop where
  shape : vals'.validators.map Validator.shape = vals.validators.map Validator.shape
  total : vals'.totalVotingPower = vals.totalVotingPower

/-- What the stores have is that of the chain. -/
structure Part (chain : Chain) (stores : Stores) : Prop where
  header : ∀ height header, stores.header height = some header → chain.header height = some header
  validators : ∀ height vals, stores.validators height = .ok vals →
    ∃ vals₀, chain.validators height = some vals₀ ∧ SameVoters vals₀ vals

/-- The state after a block of the chain. -/
structure Follows (chain : Chain) (state : State) : Prop where
  chainID : state.chainID = chain.chainID
  header : ∃ header, chain.header state.lastBlockHeight = some header ∧
    header.time = state.lastBlockTime
  validators : ∃ vals₀, chain.validators state.lastBlockHeight = some vals₀ ∧
    SameVoters vals₀ state.lastValidators

/-- The chain of a node: the headers of its blocks, and the sets that its states have used. -/
def chainOf (bs : BlockStore) (hist : History) : Chain where
  chainID := hist.last.chainID
  header height := (bs.blocks height).map fun b => b.1.toHeader
  validators := hist.used

/-- **The stores of a node have part of its chain**, whatever they were pruned of, and its state follows
it. -/
theorem part_and_follows {env : Sm.Env} {bs : BlockStore} {store : Store} {state : State}
    (h : Chained env bs store state) {stores : Stores}
    (hheader : ∀ height header, stores.header height = some header →
      ∃ b, bs.blocks height = some b ∧ b.1.toHeader = header)
    (hvals : ∀ height vals, stores.validators height = .ok vals → state.initialHeight ≤ height ∧
      height ≤ state.nextHeight ∧ store.loadValidators env.toCrypto height = .ok vals) :
    ∃ past, Part (chainOf bs ⟨store, state, past⟩) stores ∧
      (state.lastBlockHeight ≠ 0 → Follows (chainOf bs ⟨store, state, past⟩) state) := by
  obtain ⟨past, hcons, hused⟩ := h.history
  refine ⟨past, ⟨fun height header hh => ?_, fun height vals hv => ?_⟩, fun hne => ⟨rfl, ?_, ?_⟩⟩
  · obtain ⟨b, hb, rfl⟩ := hheader height header hh
    exact congrArg (Option.map _) hb
  · obtain ⟨hlo, hhi, hload⟩ := hvals height vals hv
    obtain ⟨vals₀, c, hused, hrec⟩ := hcons.recorded height hlo hhi
    obtain ⟨vals', hload', -, halike⟩ := hrec.loadValidators_alike
    obtain rfl : vals' = vals := Except.ok.inj (hload'.symm.trans hload)
    exact ⟨vals₀, hused, halike.shape, halike.total⟩
  · obtain ⟨block, hblock, -, htime⟩ := h.lastBlock hne
    exact ⟨block.toHeader, congrArg (Option.map _) hblock, htime⟩
  · exact ⟨state.lastValidators, hused hne, rfl, rfl⟩

/-- A vote with a valid signature. -/
def VoteSigned (crypto : Crypto) (chainID : String) (pubKey : PubKey) (vote : Vote) : Prop :=
  ∃ bytes, crypto.voteSignBytes chainID vote = .ok bytes ∧
    crypto.verifySignature pubKey bytes vote.signature = true

/-- What makes two votes evidence. -/
structure Opposed (voteA voteB : Vote) : Prop where
  height : voteA.height = voteB.height
  round : voteA.round = voteB.round
  type : voteA.type = voteB.type
  address : voteA.validatorAddress = voteB.validatorAddress
  blockID : voteA.blockID ≠ voteB.blockID

variable {voteA voteB : Vote}

theorem Opposed.symm (h : Opposed voteA voteB) : Opposed voteB voteA :=
  ⟨h.height.symm, h.round.symm, h.type.symm, h.address.symm, h.blockID.symm⟩

/-- Two votes of a validator of the chain, as consensus reports them. -/
structure Conflicting (crypto : Crypto) (chain : Chain) (voteA voteB : Vote) : Prop where
  opposed : Opposed voteA voteB
  signed : ∃ vals i val pubKey, chain.validators voteA.height = some vals ∧
    vals.getByAddress voteA.validatorAddress = some (i, val) ∧ val.pubKey = some pubKey ∧
    crypto.address pubKey = voteA.validatorAddress ∧
    VoteSigned crypto chain.chainID pubKey voteA ∧ VoteSigned crypto chain.chainID pubKey voteB

/-- The evidence is right, whether it has expired or not. -/
structure Verified (crypto : Crypto) (chain : Chain) (dve : DuplicateVoteEvidence) : Prop where
  verified : ∃ voteA header vals, dve.voteA = some voteA ∧
    chain.header voteA.height = some header ∧ dve.timestamp = header.time ∧
    chain.validators voteA.height = some vals ∧
    verifyDuplicateVote crypto dve chain.chainID vals = .ok none

/-- The priorities do not matter for duplicate votes. -/
theorem SameVoters.verifyDuplicateVote {vals vals' : ValidatorSet} (h : SameVoters vals vals')
    (crypto : Crypto) (dve : DuplicateVoteEvidence) (chainID : String) :
    verifyDuplicateVote crypto dve chainID vals' = verifyDuplicateVote crypto dve chainID vals := by
  unfold Evpool.verifyDuplicateVote
  split
  · rename_i voteA voteB _ _
    have hshape := getByAddress_of_shape h.shape voteA.validatorAddress
    cases hfound : vals.getByAddress voteA.validatorAddress with
    | none =>
      rw [hfound] at hshape
      rw [Option.map_eq_none_iff.mp hshape]
    | some found =>
      obtain ⟨i, val⟩ := found
      rw [hfound] at hshape
      obtain ⟨⟨i', val'⟩, hfound', heq⟩ := Option.map_eq_some_iff.mp hshape
      have hkey : val'.pubKey = val.pubKey := congrArg (·.2.1) heq
      have hpower : val'.votingPower = val.votingPower := congrArg (·.2.2) heq
      rw [hfound']
      dsimp only
      unfold verifyPowers
      rw [hkey, hpower, getTotalVotingPower_of_shape h.shape h.total]
  · rfl

/-- **Two opposed votes** with the right powers are verified, in either order. -/
theorem verifyDuplicateVote_eq_none {crypto : Crypto} {e : DuplicateVoteEvidence} {chainID : String}
    {valSet : ValidatorSet} {i : ℕ} {val : Validator} {pubKey : PubKey} (hA : e.voteA = some voteA)
    (hB : e.voteB = some voteB) (hopposed : Opposed voteA voteB)
    (hfound : valSet.getByAddress voteA.validatorAddress = some (i, val))
    (hkey : val.pubKey = some pubKey) (haddr : crypto.address pubKey = voteA.validatorAddress)
    (hpower : val.votingPower = e.validatorPower)
    (htotal : valSet.getTotalVotingPower = .ok e.totalVotingPower)
    (hsignedA : VoteSigned crypto chainID pubKey voteA)
    (hsignedB : VoteSigned crypto chainID pubKey voteB) :
    verifyDuplicateVote crypto e chainID valSet = .ok none := by
  obtain ⟨bytesA, hbytesA, hverifyA⟩ := hsignedA
  obtain ⟨bytesB, hbytesB, hverifyB⟩ := hsignedB
  have hvotes : verifyVotes crypto chainID pubKey voteA voteB = .ok none := by
    unfold verifyVotes
    rw [bind_of_ok hbytesA, if_neg (by rw [hverifyA]; nofun), bind_of_ok hbytesB,
      if_neg (by rw [hverifyB]; nofun)]
    rfl
  have hpowers : verifyPowers crypto e voteA voteB chainID valSet val pubKey = .ok none := by
    unfold verifyPowers
    rw [if_neg (not_not.mpr hpower), bind_of_ok htotal, if_neg (not_not.mpr rfl)]
    exact hvotes
  have hhrt : ¬(voteA.height ≠ voteB.height ∨ voteA.round ≠ voteB.round ∨ voteA.type ≠ voteB.type) := by
    rw [hopposed.height, hopposed.round, hopposed.type]
    simp
  unfold verifyDuplicateVote
  rw [hA, hB]
  dsimp only
  rw [hfound]
  dsimp only
  rw [if_neg hhrt, if_neg (not_not.mpr hopposed.address), if_neg hopposed.blockID, hkey]
  dsimp only
  rw [if_neg (not_not.mpr haddr)]
  exact hpowers

/-! ### What was verified -/

section

variable {env : Env} {chain : Chain} {stores : Stores} {state : State}
  {dve : DuplicateVoteEvidence}

/-- Evidence that passes `verify` is right. -/
theorem verified_of_verify (hpart : Part chain stores) (hchainID : state.chainID = chain.chainID)
    (h : verify env.toPrimitives stores state (.duplicateVote dve) = .ok none) :
    Verified env.toCrypto chain dve := by
  obtain ⟨height, hheight, h⟩ := ok_of_bind h
  obtain ⟨voteA, hA, rfl⟩ := evidenceHeight_duplicateVote.mp (lift_eq_ok.mp hheight)
  cases hheader : stores.header voteA.height with
  | none =>
    rw [hheader] at h
    cases h
  | some header =>
    rw [hheader] at h
    dsimp only at h
    split_ifs at h with htime hexpired
    · cases h
    · cases h
    · unfold verifyKind at h
      dsimp only at h
      rw [bind_of_ok hheight] at h
      unfold withValidators at h
      split at h
      · cases h
      · cases h
      · rename_i vals hvals
        obtain ⟨vals₀, hvals₀, hsame⟩ := hpart.validators _ _ hvals
        have hverify := lift_eq_ok.mp h
        rw [hsame.verifyDuplicateVote, hchainID] at hverify
        exact ⟨voteA, header, vals₀, hA, hpart.header _ _ hheader, not_not.mp htime, hvals₀, hverify⟩

/-- The evidence has not expired, and the stores have what is needed to verify it. -/
structure Current (stores : Stores) (state : State) (dve : DuplicateVoteEvidence) : Prop where
  current : ∀ voteA, dve.voteA = some voteA →
    isEvidenceExpired state.lastBlockHeight state.lastBlockTime voteA.height dve.timestamp
      state.consensusParams.evidence = false ∧
    (∃ header, stores.header voteA.height = some header) ∧
    ∃ vals, stores.validators voteA.height = .ok vals

/-- **Evidence that is right** passes `verify` until it expires. -/
theorem verify_of_verified (hpart : Part chain stores) (hchainID : state.chainID = chain.chainID)
    (hv : Verified env.toCrypto chain dve) (hcurrent : Current stores state dve) :
    verify env.toPrimitives stores state (.duplicateVote dve) = .ok none := by
  obtain ⟨voteA, header, vals₀, hA, hheader, htime, hvals₀, hverify⟩ := hv.verified
  obtain ⟨hexpired, ⟨header', hheader'⟩, vals, hvals⟩ := hcurrent.current voteA hA
  obtain rfl : header' = header := Option.some.inj ((hpart.header _ _ hheader').symm.trans hheader)
  obtain ⟨vals₁, hvals₁, hsame⟩ := hpart.validators _ _ hvals
  obtain rfl : vals₁ = vals₀ := Option.some.inj (hvals₁.symm.trans hvals₀)
  have hheight : lift (evidenceHeight (.duplicateVote dve)) = .ok voteA.height :=
    lift_eq_ok.mpr (evidenceHeight_duplicateVote.mpr ⟨voteA, hA, rfl⟩)
  have hkind : verifyKind env.toPrimitives stores state.chainID (.duplicateVote dve) = .ok none := by
    unfold verifyKind
    dsimp only
    rw [bind_of_ok hheight]
    unfold withValidators
    rw [hvals]
    dsimp only
    rw [hsame.verifyDuplicateVote, hchainID, hverify]
    rfl
  unfold verify
  rw [bind_of_ok hheight, hheader']
  dsimp only
  rw [if_neg (not_not.mpr (show evidenceTime (.duplicateVote dve) = header'.time from htime)),
    if_neg (by rw [← htime, hexpired]; nofun)]
  exact hkind

/-- **The evidence of two votes** that were reported is right. -/
theorem verified_of_reported {header : Header} {vals₀ valSet : ValidatorSet}
    (hc : Conflicting env.toCrypto chain voteA voteB)
    (hheader : chain.header voteA.height = some header)
    (hvals₀ : chain.validators voteA.height = some vals₀) (hsame : SameVoters vals₀ valSet)
    (h : Pool.newDuplicateVoteEvidence voteA voteB header.time valSet = .ok (some dve)) :
    Verified env.toCrypto chain dve := by
  obtain ⟨vals, i, val, pubKey, hvals, hfound, hkey, haddr, hsignedA, hsignedB⟩ := hc.signed
  obtain rfl : vals = vals₀ := Option.some.inj (hvals.symm.trans hvals₀)
  have hopposed := hc.opposed
  unfold Pool.newDuplicateVoteEvidence at h
  split at h
  · cases h
  rename_i i' val' hfound'
  obtain ⟨total, htotal, h⟩ := ok_of_bind h
  have hpower : val.votingPower = val'.votingPower := by
    have hshape := getByAddress_of_shape hsame.shape voteA.validatorAddress
    rw [hfound, hfound'] at hshape
    exact congrArg (·.2.2) (Option.some.inj hshape).symm
  rw [getTotalVotingPower_of_shape hsame.shape hsame.total] at htotal
  dsimp only at h
  split_ifs at h
  · cases h
    exact ⟨voteA, header, vals, rfl, hheader, rfl, hvals, verifyDuplicateVote_eq_none rfl rfl hopposed
      hfound hkey haddr hpower htotal hsignedA hsignedB⟩
  · cases h
    rw [hopposed.height] at hheader hvals
    rw [hopposed.address] at hfound haddr
    exact ⟨voteB, header, vals, rfl, hheader, rfl, hvals, verifyDuplicateVote_eq_none rfl rfl
      hopposed.symm hfound hkey haddr hpower htotal hsignedB hsignedA⟩

end

/-! ### What is pending -/

/-- Duplicate votes that are pending are right, and nothing that is pending is committed. -/
structure Pool.Good (env : Env) (chain : Chain) (pool : Pool) : Prop where
  chainID : pool.state.chainID = chain.chainID
  stores : Part chain pool.stores
  keyed : ∀ r ∈ pool.pending, env.key r.2 = .ok r.1
  verified : ∀ r ∈ pool.pending, ∀ dve, r.2 = .duplicateVote dve → Verified env.toCrypto chain dve
  uncommitted : ∀ r ∈ pool.pending, r.1 ∉ pool.committed
  reported : ∀ votes ∈ pool.consensusBuffer, Conflicting env.toCrypto chain votes.1 votes.2

namespace Pool

section Good

variable {env : Env} {chain : Chain} {pool pool' : Pool} {k : Key} {ev : Evidence}

theorem isPending_iff : pool.isPending k = true ↔ ∃ ev, (k, ev) ∈ pool.pending := by
  unfold isPending
  rw [any_eq_true]
  constructor
  · rintro ⟨⟨k', ev⟩, hmem, hk⟩
    obtain rfl : k' = k := of_decide_eq_true hk
    exact ⟨ev, hmem⟩
  · rintro ⟨ev, hmem⟩
    exact ⟨_, hmem, decide_eq_true rfl⟩

/-- Evidence may be dropped. -/
theorem Good.of_subset (h : pool.Good env chain) {pending : List (Key × Evidence)}
    (hsub : ∀ r ∈ pending, r ∈ pool.pending) (size : UInt32) (height : ℤ) (time : Time) :
    Good env chain { pool with
      pending := pending, evidenceSize := size, pruningHeight := height, pruningTime := time } :=
  ⟨h.chainID, h.stores, fun r hr => h.keyed r (hsub r hr), fun r hr => h.verified r (hsub r hr),
    fun r hr => h.uncommitted r (hsub r hr), h.reported⟩

/-- Evidence that is right and not committed may be added. -/
theorem Good.addPendingEvidence (h : pool.Good env chain) (hkey : env.key ev = .ok k)
    (hverified : ∀ dve, ev = .duplicateVote dve → Verified env.toCrypto chain dve)
    (hcommitted : pool.isCommitted k = false)
    (hadd : pool.addPendingEvidence env k ev = some pool') : pool'.Good env chain := by
  unfold Pool.addPendingEvidence at hadd
  split_ifs at hadd
  cases hadd
  refine ⟨h.chainID, h.stores, fun r hr => ?_, fun r hr => ?_, fun r hr => ?_, h.reported⟩
  · rcases mem_setRecord hr with rfl | hr
    · exact hkey
    · exact h.keyed r hr
  · rcases mem_setRecord hr with rfl | hr
    · exact hverified
    · exact h.verified r hr
  · rcases mem_setRecord hr with rfl | hr
    · exact of_decide_eq_false hcommitted
    · exact h.uncommitted r hr

theorem Good.getD_addPendingEvidence (h : pool.Good env chain) (hkey : env.key ev = .ok k)
    (hverified : ∀ dve, ev = .duplicateVote dve → Verified env.toCrypto chain dve)
    (hcommitted : pool.isCommitted k = false) :
    ((pool.addPendingEvidence env k ev).getD pool).Good env chain := by
  cases hadd : pool.addPendingEvidence env k ev with
  | none => exact h
  | some pool' => exact h.addPendingEvidence hkey hverified hcommitted hadd

/-- What passes `verify` is right. -/
theorem Good.verified_of (h : pool.Good env chain)
    (hverify : verify env.toPrimitives pool.stores pool.state ev = .ok none) (dve : DuplicateVoteEvidence)
    (hev : ev = .duplicateVote dve) : Verified env.toCrypto chain dve := by
  subst hev
  exact verified_of_verify h.stores h.chainID hverify

variable {err : Option PoolError} {dve : DuplicateVoteEvidence} {evidence : List Evidence}

theorem Good.addEvidence (h : pool.Good env chain)
    (hadd : pool.addEvidence env ev = .ok (pool', err)) : pool'.Good env chain := by
  obtain ⟨k, hkey, hadd⟩ := ok_of_bind hadd
  split_ifs at hadd with hknown
  · cases hadd
    exact h
  · obtain ⟨r, hverify, hadd⟩ := ok_of_bind hadd
    cases r with
    | some err =>
      cases hadd
      exact h
    | none =>
      dsimp only at hadd
      split at hadd
      · cases hadd
        exact h
      · rename_i pool'' hpending
        cases hadd
        exact h.addPendingEvidence hkey (h.verified_of hverify)
          (Bool.eq_false_of_not_eq_true (not_or.mp hknown).2) hpending

theorem Good.checkOne (h : pool.Good env chain) (hkey : env.key ev = .ok k)
    (hcheck : pool.checkOne env k ev = .ok (pool', err)) :
    pool'.Good env chain := by
  unfold Pool.checkOne at hcheck
  split_ifs at hcheck with hskip hcommitted
  · cases hcheck
    exact h
  · obtain ⟨r, hverify, hcheck⟩ := ok_of_bind hcheck
    cases r with
    | some err =>
      cases hcheck
      exact h
    | none =>
      cases hcheck
      exact h.getD_addPendingEvidence hkey (h.verified_of hverify)
        (Bool.eq_false_of_not_eq_true hcommitted)
  · cases hcheck
    exact h

theorem Good.checkLoop (h : pool.Good env chain) {hashes : List Bytes} {evList : List Evidence}
    (hcheck : pool.checkLoop env hashes evList = .ok (pool', err)) :
    pool'.Good env chain := by
  induction evList generalizing pool hashes with
  | nil =>
    cases hcheck
    exact h
  | cons ev rest ih =>
    obtain ⟨k, hkey, hcheck⟩ := ok_of_bind hcheck
    obtain ⟨⟨mid, r⟩, hone, hcheck⟩ := ok_of_bind hcheck
    have hmid := h.checkOne hkey hone
    cases r with
    | some err =>
      cases hcheck
      exact hmid
    | none =>
      dsimp only at hcheck
      split_ifs at hcheck
      · cases hcheck
        exact hmid
      · exact ih hmid hcheck

variable {state : State}

section

variable (h : pool.Good env chain)

include h

/-- The evidence of votes in the buffer is right. -/
theorem Good.verified_of_evidenceOf (hstate : Follows chain state)
    (hc : Conflicting env.toCrypto chain voteA voteB)
    (hdve : pool.evidenceOf state voteA voteB = .ok (some dve)) :
    Verified env.toCrypto chain dve := by
  unfold evidenceOf at hdve
  split_ifs at hdve with heq hlt
  · obtain ⟨header, hheader, htime⟩ := hstate.header
    obtain ⟨vals₀, hvals₀, hsame⟩ := hstate.validators
    rw [← heq] at hheader hvals₀
    rw [← htime] at hdve
    exact verified_of_reported hc hheader hvals₀ hsame (lift_eq_ok.mp hdve)
  · split at hdve
    · cases hdve
    · cases hdve
    · rename_i valSet hvals
      split at hdve
      · cases hdve
      · rename_i header hheader
        obtain ⟨vals₀, hvals₀, hsame⟩ := h.stores.validators _ _ hvals
        exact verified_of_reported hc (h.stores.header _ _ hheader) hvals₀ hsame
          (lift_eq_ok.mp hdve)
  · cases hdve

theorem Good.addReported (hdve : Verified env.toCrypto chain dve)
    (hadd : pool.addReported env dve = .ok pool') : pool'.Good env chain := by
  obtain ⟨k, hkey, hadd⟩ := ok_of_bind hadd
  split_ifs at hadd with hknown
  · cases hadd
    exact h
  · cases hadd
    refine h.getD_addPendingEvidence hkey ?_ (Bool.eq_false_of_not_eq_true (not_or.mp hknown).2)
    rintro dve' heq
    cases heq
    exact hdve

theorem Good.addConflicting (hstate : Follows chain state) {votes : Vote × Vote}
    (hc : Conflicting env.toCrypto chain votes.1 votes.2)
    (hadd : pool.addConflicting env state votes = .ok pool') : pool'.Good env chain := by
  obtain ⟨r, hdve, hadd⟩ := ok_of_bind hadd
  cases r with
  | none =>
    cases hadd
    exact h
  | some dve => exact h.addReported (h.verified_of_evidenceOf hstate hc hdve) hadd

theorem Good.foldlM_addConflicting (hstate : Follows chain state) {buffer : List (Vote × Vote)}
    (hbuffer : ∀ votes ∈ buffer, Conflicting env.toCrypto chain votes.1 votes.2)
    (hadd : buffer.foldlM (Pool.addConflicting env state) pool = .ok pool') :
    pool'.Good env chain := by
  refine of_foldlM h (fun mid votes hvotes mid' hmid hone => ?_) hadd
  exact hmid.addConflicting hstate (hbuffer votes hvotes) hone

theorem Good.markOne (hmark : pool.markOne env ev = .ok pool') : pool'.Good env chain := by
  obtain ⟨k, hkey, hmark⟩ := ok_of_bind hmark
  cases hmark
  split_ifs with hpending
  · refine ⟨h.chainID, h.stores, fun r hr => h.keyed r (mem_of_mem_filter hr),
      fun r hr => h.verified r (mem_of_mem_filter hr), fun r hr hmem => ?_, h.reported⟩
    rcases mem_cons.mp hmem with heq | hmem
    · exact of_decide_eq_true (mem_filter.mp hr).2 heq
    · exact h.uncommitted r (mem_of_mem_filter hr) hmem
  · refine ⟨h.chainID, h.stores, h.keyed, h.verified, fun r hr hmem => ?_, h.reported⟩
    rcases mem_cons.mp hmem with heq | hmem
    · exact hpending (isPending_iff.mpr ⟨r.2, heq ▸ hr⟩)
    · exact h.uncommitted r hr hmem

theorem Good.markEvidenceAsCommitted (hmark : pool.markEvidenceAsCommitted env evidence = .ok pool') :
    pool'.Good env chain := by
  exact of_foldlM h (fun _ _ _ _ hmid hone => hmid.markOne hone) hmark

end

theorem expireLoop_subset (l : List (Key × Evidence)) :
    ∀ r ∈ (pool.expireLoop env l).1, r ∈ l := by
  induction l with
  | nil => exact fun _ h => h
  | cons r rest ih =>
    intro r' hr'
    unfold expireLoop at hr'
    split_ifs at hr'
    · rcases mem_cons.mp hr' with rfl | hr'
      · exact mem_cons_self
      · exact mem_cons_of_mem _ (ih r' hr')
    · exact hr'
    · exact mem_cons_of_mem _ (ih r' hr')

theorem Good.prune (h : pool.Good env chain) : (pool.prune env).Good env chain := by
  unfold Pool.prune
  split_ifs
  · exact h.of_subset (expireLoop_subset pool.pending) _ _ _
  · exact h

theorem Good.update (h : pool.Good env chain) (hstate : Follows chain state)
    (hupdate : pool.update env state evidence = .ok pool') :
    pool'.Good env chain := by
  unfold Pool.update at hupdate
  split_ifs at hupdate
  obtain ⟨mid, hmid, hupdate⟩ := ok_of_bind hupdate
  obtain ⟨marked, hmarked, hupdate⟩ := ok_of_bind hupdate
  cases hupdate
  obtain ⟨mid', hmid', hmid⟩ := ok_of_bind hmid
  cases hmid
  have hgood := h.foldlM_addConflicting hstate h.reported hmid'
  have hnext : Good env chain { mid' with consensusBuffer := [], state := state } :=
    ⟨hstate.chainID, hgood.stores, hgood.keyed, hgood.verified, hgood.uncommitted,
      forall_mem_nil _⟩
  exact (hnext.markEvidenceAsCommitted hmarked).prune

/-- What is promised of a call: the votes that are reported are those of a validator, the state is one
of the chain, and the stores are. -/
def Fits (env : Env) (chain : Chain) (_ : Pool) : Event → Prop
  | .reportConflictingVotes voteA voteB => Conflicting env.toCrypto chain voteA voteB
  | .update state _ => Follows chain state
  | .stores stores => Part chain stores
  | _ => True

theorem of_toOption {α ε : Type} {x : Except ε α} {a : α} (h : x.toOption = some a) : x = .ok a := by
  cases x with
  | error e => cases h
  | ok b => exact congrArg Except.ok (Option.some.inj h)

/-- **One call.** -/
theorem Good.next (h : pool.Good env chain) {e : Event} (hfits : Fits env chain pool e)
    (hnext : pool.next env e = some pool') : pool'.Good env chain := by
  cases e with
  | addEvidence ev =>
    obtain ⟨⟨pool'', err⟩, hadd, rfl⟩ := Option.map_eq_some_iff.mp hnext
    exact h.addEvidence (of_toOption hadd)
  | reportConflictingVotes voteA voteB =>
    cases hnext
    exact ⟨h.chainID, h.stores, h.keyed, h.verified, h.uncommitted,
      forall_mem_append.mpr ⟨h.reported, forall_mem_singleton.mpr hfits⟩⟩
  | checkEvidence evList =>
    obtain ⟨⟨pool'', err⟩, hcheck, rfl⟩ := Option.map_eq_some_iff.mp hnext
    exact h.checkLoop (of_toOption hcheck)
  | update state evidence => exact h.update hfits (of_toOption hnext)
  | stores stores =>
    cases hnext
    exact ⟨h.chainID, hfits, h.keyed, h.verified, h.uncommitted, h.reported⟩

/-- **A new pool.** -/
theorem good_newPool {stores : Stores} (hchainID : state.chainID = chain.chainID)
    (hpart : Part chain stores) : (newPool state stores).Good env chain :=
  ⟨hchainID, hpart, forall_mem_nil _, forall_mem_nil _, forall_mem_nil _,
    forall_mem_nil _⟩

/-- **A run** from a new pool. -/
theorem good_of_steps {state₀ : State} {stores : Stores} (hchainID : state₀.chainID = chain.chainID)
    (hpart : Part chain stores)
    (hrun : Steps (Pool.next env) (Fits env chain) (newPool state₀ stores) pool) :
    pool.Good env chain :=
  hrun.invariant (good_newPool hchainID hpart) fun _ _ _ h hfits hn => h.next hfits hn

end Good

end Pool

/-! ### The check without a pool -/

/-- What `CheckEvidence` is for: evidence is right if it is not committed and passes `verify`. -/
def judge (env : Env) (stores : Stores) (state : State) (committed : Key → Bool) (k : Key)
    (ev : Evidence) : Except Fault (Option PoolError) :=
  if committed k then .ok (some (.alreadyCommitted ev))
  else do
    match ← verify env.toPrimitives stores state ev with
    | some err => return some (.unverified err)
    | none => return none

/-- And a list is, if no hash is in it twice. -/
def judgeList (env : Env) (stores : Stores) (state : State) (committed : Key → Bool)
    (hashes : List Bytes) : List Evidence → Except Fault (Option PoolError)
  | [] => .ok none
  | ev :: rest => do
    let k ← env.key ev
    match ← judge env stores state committed k ev with
    | some err => return some err
    | none =>
      if env.hash ev ∈ hashes then return some (.duplicate ev)
      else judgeList env stores state committed (env.hash ev :: hashes) rest

namespace Pool

variable {env : Env} {chain : Chain} {pool pool' : Pool} {k : Key} {ev : Evidence}

/-- Each of the duplicate votes that are pending would still be accepted. -/
def Fresh (env : Env) (pool : Pool) (evList : List Evidence) : Prop :=
  ∀ ev ∈ evList, ∀ k, env.key ev = .ok k → isLightEv ev = false → pool.isPending k = true →
    judge env pool.stores pool.state pool.isCommitted k ev = .ok none

/-- What a check may change: a record is added. -/
structure Extends (pool pool' : Pool) (k : Key) : Prop where
  stores : pool'.stores = pool.stores
  state : pool'.state = pool.state
  committed : pool'.committed = pool.committed
  pending : ∀ k', pool'.isPending k' = true → pool.isPending k' = true ∨ k' = k

theorem extends_getD (k : Key) (ev : Evidence) :
    Extends pool ((pool.addPendingEvidence env k ev).getD pool) k := by
  unfold addPendingEvidence
  split_ifs
  · refine ⟨rfl, rfl, rfl, fun k' hk' => ?_⟩
    obtain ⟨ev', hmem⟩ := isPending_iff.mp hk'
    rcases mem_setRecord hmem with heq | hmem
    · exact .inr (Prod.mk.inj heq).1
    · exact .inl (isPending_iff.mpr ⟨ev', hmem⟩)
  · exact ⟨rfl, rfl, rfl, fun _ h => .inl h⟩

/-- **One piece of evidence** is judged as it would be without the pool. -/
theorem checkOne_eq (hfresh : isLightEv ev = false → pool.isPending k = true →
      judge env pool.stores pool.state pool.isCommitted k ev = .ok none) :
    ∃ pool', Extends pool pool' k ∧ pool.checkOne env k ev =
      (judge env pool.stores pool.state pool.isCommitted k ev).map fun err =>
        (if err.isSome then pool else pool', err) := by
  have hself : Extends pool pool k := ⟨rfl, rfl, rfl, fun _ h => .inl h⟩
  by_cases hskip : isLightEv ev = true ∨ ¬pool.isPending k = true
  · refine ⟨(pool.addPendingEvidence env k ev).getD pool, extends_getD k ev, ?_⟩
    unfold checkOne judge
    rw [if_pos hskip]
    by_cases hcommitted : pool.isCommitted k = true
    · rw [if_pos hcommitted, if_pos hcommitted]
      rfl
    · rw [if_neg hcommitted, if_neg hcommitted]
      cases verify env.toPrimitives pool.stores pool.state ev with
      | error e => rfl
      | ok r =>
        cases r with
        | some err => rfl
        | none => rfl
  · obtain ⟨hlight, hpending⟩ := not_or.mp hskip
    refine ⟨pool, hself, ?_⟩
    rw [hfresh (Bool.eq_false_of_not_eq_true hlight) (not_not.mp hpending)]
    exact if_neg hskip

variable {evList : List Evidence}

/-- **`CheckEvidence`** has the result that it would have without the pool. -/
theorem checkLoop_eq {hashes : List Bytes} (hfresh : pool.Fresh env evList)
    (hinj : ∀ a ∈ evList, isLightEv a = false → ∀ b ∈ evList, env.hash a = env.hash b → a = b) :
    (pool.checkLoop env hashes evList).map snd =
      judgeList env pool.stores pool.state pool.isCommitted hashes evList := by
  induction evList generalizing pool hashes with
  | nil => rfl
  | cons ev rest ih =>
    show Except.map snd (env.key ev >>= _) = (env.key ev >>= _)
    cases hkey : env.key ev with
    | error e => rfl
    | ok k =>
      obtain ⟨mid, hext, hone⟩ := checkOne_eq (hfresh ev mem_cons_self k hkey)
      show Except.map snd (pool.checkOne env k ev >>= _) =
        (judge env pool.stores pool.state pool.isCommitted k ev >>= _)
      rw [hone]
      cases hjudge : judge env pool.stores pool.state pool.isCommitted k ev with
      | error e => rfl
      | ok err =>
        cases err with
        | some err => rfl
        | none =>
          show Except.map snd (if env.hash ev ∈ hashes then .ok (mid, some (.duplicate ev))
            else checkLoop env mid (env.hash ev :: hashes) rest) = if env.hash ev ∈ hashes then _ else _
          by_cases hdup : env.hash ev ∈ hashes
          · rw [if_pos hdup, if_pos hdup]
            rfl
          · rw [if_neg hdup, if_neg hdup]
            have hcommitted : mid.isCommitted = pool.isCommitted := by
              funext k'
              unfold isCommitted
              rw [hext.committed]
            have hmid : mid.Fresh env rest := by
              intro ev' hev' k' hkey' hlight hpending
              rw [hext.stores, hext.state, hcommitted]
              rcases hext.pending k' hpending with hold | rfl
              · exact hfresh ev' (mem_cons_of_mem _ hev') k' hkey' hlight hold
              · -- the record was just added: it is the same evidence
                have hhash := (Env.hash_of_key hkey').trans (Env.hash_of_key hkey).symm
                rw [hinj ev' (mem_cons_of_mem _ hev') hlight ev mem_cons_self hhash]
                exact hjudge
            rw [ih hmid fun a ha hl b hb => hinj a (mem_cons_of_mem _ ha) hl b (mem_cons_of_mem _ hb),
              hext.stores, hext.state, hcommitted]

/-- **What is pending is fresh**, as long as it is current. -/
theorem Good.fresh (h : pool.Good env chain)
    (hcollision : ∀ ev ∈ evList, isLightEv ev = false →
      ∀ r ∈ pool.pending, env.hash ev = env.hash r.2 → ev = r.2)
    (hcurrent : ∀ dve, .duplicateVote dve ∈ evList → ∀ k, env.key (.duplicateVote dve) = .ok k →
      pool.isPending k = true → Current pool.stores pool.state dve) : pool.Fresh env evList := by
  intro ev hev k hkey hlight hpending
  obtain ⟨ev', hmem⟩ := isPending_iff.mp hpending
  obtain rfl : ev = ev' := hcollision ev hev hlight _ hmem
    ((Env.hash_of_key hkey).trans (Env.hash_of_key (h.keyed _ hmem)).symm)
  cases ev with
  | lightClientAttack l => cases hlight
  | duplicateVote dve =>
    have hverify := verify_of_verified h.stores h.chainID (h.verified _ hmem dve rfl)
      (hcurrent dve hev k hkey hpending)
    have hcommitted : pool.isCommitted k = false := decide_eq_false (h.uncommitted _ hmem)
    unfold judge
    rw [if_neg (by rw [hcommitted]; nofun), bind_of_ok hverify]
    rfl

end Pool

/-- **Two pools agree.** Take two pools that were filled by calls with what one chain has, and by votes
that its validators have signed. If they have the same state, stores and committed evidence, then
`CheckEvidence` has the same result in both, provided that duplicate votes of the list have the hash of
no other evidence, and that those that are pending in one of them have not expired and can still be
looked up. -/
theorem pools_agree {env : Env} {chain : Chain} {stateA stateB : State} {storesA storesB : Stores}
    (hstateA : stateA.chainID = chain.chainID) (hstoresA : Part chain storesA)
    (hstateB : stateB.chainID = chain.chainID) (hstoresB : Part chain storesB) {a b : Pool}
    (hrunA : Steps (Pool.next env) (Pool.Fits env chain) (newPool stateA storesA) a)
    (hrunB : Steps (Pool.next env) (Pool.Fits env chain) (newPool stateB storesB) b)
    (hstate : b.state = a.state) (hstores : b.stores = a.stores)
    (hcommitted : ∀ k, k ∈ b.committed ↔ k ∈ a.committed) {evList : List Evidence}
    (hinj : ∀ ev ∈ evList, Pool.isLightEv ev = false →
      ∀ ev' ∈ evList, env.hash ev = env.hash ev' → ev = ev')
    (hcollision : ∀ ev ∈ evList, Pool.isLightEv ev = false →
      ∀ r ∈ a.pending ++ b.pending, env.hash ev = env.hash r.2 → ev = r.2)
    (hcurrent : ∀ dve, .duplicateVote dve ∈ evList → ∀ k, env.key (.duplicateVote dve) = .ok k →
      a.isPending k = true ∨ b.isPending k = true → Current a.stores a.state dve) :
    (a.checkEvidence env evList).map snd = (b.checkEvidence env evList).map snd := by
  have hgoodA := Pool.good_of_steps hstateA hstoresA hrunA
  have hgoodB := Pool.good_of_steps hstateB hstoresB hrunB
  have hsame : b.isCommitted = a.isCommitted := by
    funext k
    exact decide_eq_decide.mpr (hcommitted k)
  have hfreshA : a.Fresh env evList := hgoodA.fresh
    (fun ev hev hlight r hr => hcollision ev hev hlight r (mem_append_left _ hr))
    fun dve hdve k hkey hpending => hcurrent dve hdve k hkey (.inl hpending)
  have hfreshB : b.Fresh env evList := by
    refine hgoodB.fresh
      (fun ev hev hlight r hr => hcollision ev hev hlight r (mem_append_right _ hr))
      fun dve hdve k hkey hpending => ?_
    rw [hstores, hstate]
    exact hcurrent dve hdve k hkey (.inr hpending)
  unfold Pool.checkEvidence
  rw [Pool.checkLoop_eq hfreshA hinj, Pool.checkLoop_eq hfreshB hinj, hstores, hstate, hsame]

/-! ### Evidence that has expired -/

def poolEnv : Env where
  toPrimitives := attackPrimitives
  bytes dve := [UInt8.ofNat dve.timestamp.toNat]
  marshals _ := true

/-- Ten seconds between two blocks. -/
def timeAt (height : ℤ) : Time := height * 10 * Pool.second

def headerAt (height : ℤ) : Header :=
  { (secondBlock (timeAt height) []).toHeader with height := height }

/-- A chain with the same validators at all heights. -/
def evenChain : Chain where
  chainID := "chain"
  header height := some (headerAt height)
  validators _ := some twoVals

def evenStores : Stores where
  header height := some (headerAt height)
  commit _ := none
  height := 3
  validators _ := .ok twoVals

/-- Evidence is too old after one block and one second. -/
def evenState (height : ℤ) : State :=
  { secondState with
    lastBlockHeight := height
    lastBlockTime := timeAt height
    consensusParams.evidence := ⟨1, Pool.second, 1000⟩ }

theorem evenStores_part : Part evenChain evenStores := by
  refine ⟨fun height header h => h, fun height vals h => ⟨twoVals, rfl, ?_⟩⟩
  cases h
  exact ⟨rfl, rfl⟩

theorem evenState_follows (height : ℤ) : Follows evenChain (evenState height) :=
  ⟨rfl, ⟨_, rfl, rfl⟩, twoVals, rfl, rfl, rfl⟩

/-- A vote of the first validator at height 1, for a block with the hash. -/
def voteFor (n : UInt8) : Vote where
  type := .precommit
  height := 1
  round := 0
  blockID := ⟨replicate 32 n, ⟨1, replicate 32 8⟩⟩
  timestamp := 7
  validatorAddress := replicate 20 1
  validatorIndex := 0
  signature := (keyOf 1).bytes ++ 1 :: 0 :: 7 :: n :: replicate 28 0

def doubleVote : DuplicateVoteEvidence := ⟨some (voteFor 1), some (voteFor 2), 4, 3, timeAt 1⟩

/-- A pool with the stores of the chain, after some calls and the blocks from 2 on. -/
def poolAt (calls : List Evidence) (heights : List ℤ) : Option Pool :=
  (exec (Pool.next poolEnv) (newPool (evenState 1) evenStores)
    (calls.map .addEvidence ++ heights.map fun height => .update (evenState height) [])).map
    fun pool => { pool with stores := evenStores }

theorem steps_poolAt {calls : List Evidence} {heights : List ℤ} {pool : Pool}
    (h : poolAt calls heights = some pool) :
    Steps (Pool.next poolEnv) (Pool.Fits poolEnv evenChain) (newPool (evenState 1) evenStores) pool ∧
      pool.stores = evenStores := by
  obtain ⟨mid, hmid, rfl⟩ := Option.map_eq_some_iff.mp h
  refine ⟨Steps.tail (a := .stores evenStores) (steps_of_exec_of (fun e he s => ?_) hmid)
    evenStores_part rfl, rfl⟩
  rcases mem_append.mp he with he | he
  · obtain ⟨ev, -, rfl⟩ := mem_map.mp he
    trivial
  · obtain ⟨height, -, rfl⟩ := mem_map.mp he
    exact evenState_follows height

/-- **Two pools disagree.** The evidence of height 1 has expired at height 3. It would be pruned at
height 4. -/
theorem pools_disagree : ∃ a b : Pool,
    Steps (Pool.next poolEnv) (Pool.Fits poolEnv evenChain) (newPool (evenState 1) evenStores) a ∧
    Steps (Pool.next poolEnv) (Pool.Fits poolEnv evenChain) (newPool (evenState 1) evenStores) b ∧
    b.state = a.state ∧ b.stores = a.stores ∧ b.committed = a.committed ∧
    (a.checkEvidence poolEnv [.duplicateVote doubleVote]).map snd = .ok none ∧
    (b.checkEvidence poolEnv [.duplicateVote doubleVote]).map snd =
      .ok (some (.unverified (.tooOld 1 (timeAt 1) 2 (timeAt 3 + Pool.second)))) := by
  have hdec : ((poolAt [.duplicateVote doubleVote] [2, 3]).any fun a =>
      (poolAt [] [2, 3]).any fun b => b.state = a.state ∧ b.committed = a.committed ∧
        (a.checkEvidence poolEnv [.duplicateVote doubleVote]).map snd = .ok none ∧
        (b.checkEvidence poolEnv [.duplicateVote doubleVote]).map snd =
          .ok (some (.unverified (.tooOld 1 (timeAt 1) 2 (timeAt 3 + Pool.second))))) = true := by
    decide +kernel
  obtain ⟨a, ha, hdec⟩ := (Option.any_eq_true _ _).mp hdec
  obtain ⟨b, hb, hdec⟩ := (Option.any_eq_true _ _).mp hdec
  obtain ⟨hstate, hcommitted, haccept, hreject⟩ := of_decide_eq_true hdec
  obtain ⟨hstepsA, hstoresA⟩ := steps_poolAt ha
  obtain ⟨hstepsB, hstoresB⟩ := steps_poolAt hb
  exact ⟨a, b, hstepsA, hstepsB, hstate, hstoresB.trans hstoresA.symm, hcommitted, haccept, hreject⟩

/-- At height 2 it has not expired, and both accept it. -/
theorem pools_agree_pending : ∃ a b : Pool,
    a.isPending (1, poolEnv.hash (.duplicateVote doubleVote)) = true ∧ b.pending = [] ∧
    (b.checkEvidence poolEnv [.duplicateVote doubleVote]).map snd = .ok none ∧
    (a.checkEvidence poolEnv [.duplicateVote doubleVote]).map snd =
      (b.checkEvidence poolEnv [.duplicateVote doubleVote]).map snd := by
  have hdec : ((poolAt [.duplicateVote doubleVote] [2]).any fun a => (poolAt [] [2]).any fun b =>
      b.state = a.state ∧ b.committed = a.committed ∧ a.state = evenState 2 ∧ b.pending = [] ∧
        a.pending = [((1, poolEnv.hash (.duplicateVote doubleVote)), .duplicateVote doubleVote)] ∧
        (b.checkEvidence poolEnv [.duplicateVote doubleVote]).map snd = .ok none) = true := by
    decide +kernel
  obtain ⟨a, ha, hdec⟩ := (Option.any_eq_true _ _).mp hdec
  obtain ⟨b, hb, hdec⟩ := (Option.any_eq_true _ _).mp hdec
  obtain ⟨hstate, hcommitted, hstateA, hpendingB, hpendingA, haccept⟩ := of_decide_eq_true hdec
  obtain ⟨hstepsA, hstoresA⟩ := steps_poolAt ha
  obtain ⟨hstepsB, hstoresB⟩ := steps_poolAt hb
  refine ⟨a, b, ?_, hpendingB, haccept, pools_agree rfl evenStores_part rfl evenStores_part hstepsA
    hstepsB hstate (hstoresB.trans hstoresA.symm) (fun k => by rw [hcommitted]) ?_ ?_ ?_⟩
  · rw [Pool.isPending, hpendingA]
    decide
  · simp
  · rw [hpendingA, hpendingB]
    simp
  · intro dve hdve k hkey hpending
    cases mem_singleton.mp hdve
    rw [hstoresA, hstateA]
    refine ⟨fun voteA hvoteA => ?_⟩
    cases hvoteA
    exact ⟨by decide, ⟨_, rfl⟩, _, rfl⟩

/-! ### Evidence of reported votes -/

/-- **Evidence made of reported votes is right everywhere.** Take a pool after any calls, and the loop
of `processConsensusBuffer` in the next `Update` at any two of the votes in the buffer. If it makes
evidence of them, `verify` accepts that in every state of the chain with stores of the chain, as long as
the evidence has not expired and its height is in the stores. -/
theorem reported_verifies {env : Env} {chain : Chain} {state₀ : State} {stores₀ : Stores}
    (hchainID₀ : state₀.chainID = chain.chainID) (hstores₀ : Part chain stores₀) {pool : Pool}
    (hrun : Steps (Pool.next env) (Pool.Fits env chain) (newPool state₀ stores₀) pool)
    {before after : List (Vote × Vote)}
    (hbuffer : pool.consensusBuffer = before ++ (voteA, voteB) :: after) {state : State}
    (hstate : Follows chain state) {mid : Pool}
    (hmid : before.foldlM (Pool.addConflicting env state) pool = .ok mid)
    {dve : DuplicateVoteEvidence} (hdve : mid.evidenceOf state voteA voteB = .ok (some dve))
    {stores' : Stores} {state' : State} (hstores' : Part chain stores')
    (hchainID' : state'.chainID = chain.chainID) (hcurrent : Current stores' state' dve) :
    verify env.toPrimitives stores' state' (.duplicateVote dve) = .ok none := by
  have hgood := Pool.good_of_steps hchainID₀ hstores₀ hrun
  have hreported := hgood.reported
  rw [hbuffer] at hreported
  obtain ⟨hbefore, hrest⟩ := forall_mem_append.mp hreported
  have hverified := (hgood.foldlM_addConflicting hstate hbefore hmid).verified_of_evidenceOf hstate
    (forall_mem_cons.mp hrest).1 hdve
  exact verify_of_verified hstores' hchainID' hverified hcurrent

theorem voteFor_conflicting : Conflicting poolEnv.toCrypto evenChain (voteFor 1) (voteFor 2) :=
  ⟨⟨rfl, rfl, rfl, rfl, by decide⟩, twoVals, 0, _, keyOf 1, rfl, rfl, rfl, rfl,
    ⟨_, rfl, by decide⟩, _, rfl, by decide⟩

/-- The votes of height 1 become evidence at height 2, where it is verified in another state. -/
theorem reported_verifies_second : ∃ pool dve,
    Steps (Pool.next poolEnv) (Pool.Fits poolEnv evenChain) (newPool (evenState 1) evenStores) pool ∧
    pool.evidenceOf (evenState 2) (voteFor 1) (voteFor 2) = .ok (some dve) ∧
    verify poolEnv.toPrimitives evenStores (evenState 2) (.duplicateVote dve) = .ok none := by
  have hrun : Steps (Pool.next poolEnv) (Pool.Fits poolEnv evenChain)
      (newPool (evenState 1) evenStores)
      ((newPool (evenState 1) evenStores).reportConflictingVotes (voteFor 1) (voteFor 2)) :=
    .tail (a := .reportConflictingVotes _ _) (.refl _) voteFor_conflicting rfl
  refine ⟨_, doubleVote, hrun, rfl, ?_⟩
  refine reported_verifies rfl evenStores_part hrun (show _ = [] ++ [(voteFor 1, voteFor 2)] from rfl)
    (evenState_follows 2) rfl rfl evenStores_part rfl ⟨fun voteA hvoteA => ?_⟩
  cases hvoteA
  exact ⟨by decide, ⟨_, rfl⟩, _, rfl⟩

end CometBFT.Evpool
