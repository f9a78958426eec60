import CometBFT.State.Validation
import CometBFT.Types.Reconstruction

/-!
# The last commit after a restart

When a block is committed, `finalizeCommit` stores the commit for it, with the vote extensions if they
are enabled (`consensus/state.go`). When a node starts, `reconstructLastCommit` reads that commit and
makes a vote set of it, for the validators of the last block. A panic stops the node.

Of the block store, this module has the commits: the seen commit of each height, the commit that the
next block has of it, and the extended commit. A commit that is read is decoded, which fails if it does
not pass `ValidateBasic`.

The parameters may change with the block. `ValidateUpdate` refuses a change that would enable or
disable the vote extensions at the height of the block or before.

## Main results

* `features_not_retroactive` — by the parameters of all later heights a feature was enabled at the
  same heights
* `reconstructLastCommit_of_extended`, `reconstructLastCommit_of_seen` — when a start succeeds
* `majority_commits` — a vote set with a majority of votes that pass `ValidateBasic` gives a commit
  that verifies, and after a restart a vote set with the same majority, exactly if no extension is
  too long
* `extended_nil_panics` — a majority with a vote that does not pass
-/

namespace CometBFT.Consensus

open CometBFT.Types List Sm

/-! ### Stored commits -/

/-- `CommitFromProto`, whether it gives a commit. -/
def decodesCommit (commit : Commit) : Bool :=
  commit.blockID.validateBasic ∧ (∀ sig ∈ commit.signatures, sig.validateBasic = true) ∧
    commit.validateBasic

/-- `ExtendedCommitFromProto`, whether it gives a commit. -/
def decodesExtendedCommit (ec : ExtendedCommit) : Bool :=
  ec.blockID.validateBasic ∧ (∀ ecs ∈ ec.extendedSignatures, ecs.validateBasic = true) ∧
    ec.validateBasic

/-- The commits of a block store, by height. -/
structure CommitStore where
  blockCommit : ℤ → Option Commit := fun _ => none
  seenCommit : ℤ → Option Commit := fun _ => none
  extCommit : ℤ → Option ExtendedCommit := fun _ => none

namespace CommitStore

open Function

variable (bs : CommitStore)

/-- What is read, where it does not decode a panic. -/
def decoded {α : Type} (decodes : α → Bool) (text : String) : Option α → Except Failure (Option α)
  | none => .ok none
  | some a => if decodes a then .ok (some a) else .error (.panic text)

def loadBlockCommit (height : ℤ) : Except Failure (Option Commit) :=
  decoded decodesCommit "Commit to proto error" (bs.blockCommit height)

def loadSeenCommit (height : ℤ) : Except Failure (Option Commit) :=
  decoded decodesCommit "converting seen commit" (bs.seenCommit height)

def loadBlockExtendedCommit (height : ℤ) : Except Failure (Option ExtendedCommit) :=
  decoded decodesExtendedCommit "converting extended commit" (bs.extCommit height)

/-- The commits of `SaveBlock`. -/
def saveBlock (height : ℤ) (lastCommit seenCommit : Commit) : Except Failure CommitStore :=
  if height ≠ seenCommit.height then
    .error (.panic "BlockStore cannot save seen commit of a different height")
  else .ok { bs with
    blockCommit := update bs.blockCommit (height - 1) (some lastCommit)
    seenCommit := update bs.seenCommit height (some seenCommit) }

/-- The commits of `SaveBlockWithExtendedCommit`. -/
def saveBlockWithExtendedCommit (height : ℤ) (lastCommit : Commit)
    (seenExtendedCommit : ExtendedCommit) : Except Failure CommitStore :=
  if seenExtendedCommit.extendedSignatures.all (ExtendedCommitSig.ensureExtension true) = false then
    .error (.panic "problems saving block with extensions")
  else do
    let bs ← bs.saveBlock height lastCommit seenExtendedCommit.toCommit
    return { bs with extCommit := update bs.extCommit height (some seenExtendedCommit) }

variable {bs}

/-- A commit that was saved is read. -/
theorem load_of_saveBlock {bs' : CommitStore} {height : ℤ} {lastCommit commit : Commit}
    (hdecodes : decodesCommit commit = true)
    (h : bs.saveBlock height lastCommit commit = .ok bs') :
    bs'.loadSeenCommit height = .ok (some commit) := by
  unfold saveBlock at h
  split_ifs at h
  cases h
  show decoded _ _ (update bs.seenCommit height (some commit) height) = _
  rw [update_self]
  exact if_pos hdecodes

theorem load_of_saveBlockWithExtendedCommit {bs' : CommitStore} {height : ℤ} {lastCommit : Commit}
    {ec : ExtendedCommit} (h : bs.saveBlockWithExtendedCommit height lastCommit ec = .ok bs') :
    bs'.loadBlockExtendedCommit height = if decodesExtendedCommit ec then .ok (some ec)
      else .error (.panic "converting extended commit") := by
  unfold saveBlockWithExtendedCommit at h
  split_ifs at h
  obtain ⟨mid, -, h⟩ := ok_of_bind h
  cases h
  show decoded _ _ (update mid.extCommit height (some ec) height) = _
  rw [update_self]
  rfl

theorem exists_saveBlock (bs : CommitStore) (lastCommit commit : Commit) :
    ∃ bs', bs.saveBlock commit.height lastCommit commit = .ok bs' :=
  ⟨_, if_neg (not_not.mpr rfl)⟩

theorem exists_saveBlockWithExtendedCommit (bs : CommitStore) (lastCommit : Commit)
    {ec : ExtendedCommit}
    (hall : ec.extendedSignatures.all (ExtendedCommitSig.ensureExtension true) = true) :
    ∃ bs', bs.saveBlockWithExtendedCommit ec.height lastCommit ec = .ok bs' := by
  obtain ⟨mid, hmid⟩ := bs.exists_saveBlock lastCommit ec.toCommit
  unfold saveBlockWithExtendedCommit
  rw [if_neg (by rw [hall]; nofun)]
  exact ⟨_, bind_of_ok hmid _⟩

end CommitStore

/-- How `finalizeCommit` stores the commit for a block. -/
def saveCommitted (fp : FeatureParams) (bs : CommitStore) (height : ℤ) (lastCommit : Commit)
    (precommits : VoteSet) : Except Failure CommitStore := do
  let seenExtendedCommit ← precommits.makeExtendedCommit fp
  let extensionsEnabled ← fp.voteExtensionsEnabled height
  if extensionsEnabled then
    bs.saveBlockWithExtendedCommit height lastCommit seenExtendedCommit
  else bs.saveBlock height lastCommit seenExtendedCommit.toCommit

/-! ### Starting -/

/-- The errors of `votesFromSeenCommit` and `votesFromExtendedCommit`. -/
inductive LastCommitError where
  | notFound (height : ℤ)
  | heightsDontMatch (got expected : ℤ)
  | quorumNotMet
deriving DecidableEq, Repr

/-- What the two functions below have in common: the height, and that there is a majority. -/
def votesFrom (state : State) (height : ℤ) (toVoteSet : Except Failure VoteSet) :
    Except Failure (Except LastCommitError VoteSet) :=
  if height ≠ state.lastBlockHeight then
    .ok (.error (.heightsDontMatch height state.lastBlockHeight))
  else do
    let vs ← toVoteSet
    -- `HasTwoThirdsMajority`
    if vs.maj23.isSome then return .ok vs else return .error .quorumNotMet

def votesFromExtendedCommit (crypto : Crypto) (bs : CommitStore) (state : State) :
    Except Failure (Except LastCommitError VoteSet) := do
  match ← bs.loadBlockExtendedCommit state.lastBlockHeight with
  | none => return .error (.notFound state.lastBlockHeight)
  | some ec => votesFrom state ec.height (ec.toExtendedVoteSet crypto state.chainID state.lastValidators)

/-- The seen commit, or if there is none the commit of the next block. -/
def loadCommit (bs : CommitStore) (height : ℤ) : Except Failure (Option Commit) := do
  match ← bs.loadSeenCommit height with
  | some commit => return some commit
  | none => bs.loadBlockCommit height

def votesFromSeenCommit (crypto : Crypto) (bs : CommitStore) (state : State) :
    Except Failure (Except LastCommitError VoteSet) := do
  match ← loadCommit bs state.lastBlockHeight with
  | none => return .error (.notFound state.lastBlockHeight)
  | some commit =>
    votesFrom state commit.height (commit.toVoteSet crypto state.chainID state.lastValidators)

/-- An error is a panic. -/
def votesOrPanic (text : String) : Except LastCommitError VoteSet → Except Failure VoteSet
  | .ok votes => .ok votes
  | .error _ => .error (.panic text)

def reconstructSeenCommit (crypto : Crypto) (bs : CommitStore) (state : State) :
    Except Failure VoteSet := do
  votesOrPanic "failed to reconstruct last commit" (← votesFromSeenCommit crypto bs state)

def reconstructLastCommit (crypto : Crypto) (bs : CommitStore) (state : State) :
    Except Failure VoteSet := do
  let extensionsEnabled ←
    state.consensusParams.feature.voteExtensionsEnabled state.lastBlockHeight
  if extensionsEnabled = false then reconstructSeenCommit crypto bs state
  else do
    votesOrPanic "failed to reconstruct last extended commit" (← votesFromExtendedCommit crypto bs state)

variable {crypto : Crypto} {bs : CommitStore} {state : State} {vs : VoteSet} {b : BlockID}

theorem votesFrom_eq (hmaj : vs.maj23 = some b) :
    votesFrom state state.lastBlockHeight (.ok vs) = .ok (.ok vs) := by
  unfold votesFrom
  rw [if_neg (not_not.mpr rfl)]
  show (if vs.maj23.isSome = true then _ else _) = _
  rw [hmaj]
  rfl

/-- **With extensions**, a start succeeds if the extended commit makes a majority. -/
theorem reconstructLastCommit_of_extended {ec : ExtendedCommit}
    (hext : state.consensusParams.feature.voteExtensionsEnabled state.lastBlockHeight = .ok true)
    (hload : bs.loadBlockExtendedCommit state.lastBlockHeight = .ok (some ec))
    (hheight : ec.height = state.lastBlockHeight)
    (hvs : ec.toExtendedVoteSet crypto state.chainID state.lastValidators = .ok vs)
    (hmaj : vs.maj23 = some b) : reconstructLastCommit crypto bs state = .ok vs := by
  unfold reconstructLastCommit votesFromExtendedCommit
  rw [bind_of_ok hext, if_neg (by decide), bind_of_ok hload]
  dsimp only
  rw [hheight, hvs, votesFrom_eq hmaj]
  rfl

/-- And a start fails if the extended commit cannot be read. -/
theorem reconstructLastCommit_of_unread {e : Failure}
    (hext : state.consensusParams.feature.voteExtensionsEnabled state.lastBlockHeight = .ok true)
    (hload : bs.loadBlockExtendedCommit state.lastBlockHeight = .error e) :
    reconstructLastCommit crypto bs state = .error e := by
  unfold reconstructLastCommit votesFromExtendedCommit
  rw [bind_of_ok hext, hload]
  rfl

/-- **Without extensions**, a start succeeds if the seen commit makes a majority. -/
theorem reconstructLastCommit_of_seen {commit : Commit}
    (hext : state.consensusParams.feature.voteExtensionsEnabled state.lastBlockHeight = .ok false)
    (hload : bs.loadSeenCommit state.lastBlockHeight = .ok (some commit))
    (hheight : commit.height = state.lastBlockHeight)
    (hvs : commit.toVoteSet crypto state.chainID state.lastValidators = .ok vs)
    (hmaj : vs.maj23 = some b) : reconstructLastCommit crypto bs state = .ok vs := by
  have hcommit : loadCommit bs state.lastBlockHeight = .ok (some commit) := by
    unfold loadCommit
    rw [bind_of_ok hload]
    rfl
  unfold reconstructLastCommit reconstructSeenCommit votesFromSeenCommit
  rw [bind_of_ok hext, if_pos rfl, bind_of_ok hcommit]
  dsimp only
  rw [hheight, hvs, votesFrom_eq hmaj]
  rfl

/-! ### Extensions and the next state -/

/-- What the next state has of this one and of the header. **Whether a feature is enabled** at the
height of a block or before does not change with the block. -/
theorem of_updateState {hashResults : List TxResult → Bytes}
    {state state' : State} {blockID : BlockID} {header : Header}
    {resp : FinalizeBlockResponse} {updates : List Validator}
    (h : updateState hashResults state blockID header resp updates = .ok state') :
    state'.chainID = state.chainID ∧ state'.lastBlockHeight = header.height ∧
      state'.lastBlockID = blockID ∧ state'.lastValidators = state.validators ∧
      ∀ g ≤ header.height, state'.consensusParams.feature.voteExtensionsEnabled g =
          state.consensusParams.feature.voteExtensionsEnabled g ∧
        state'.consensusParams.feature.pbtsEnabled g =
          state.consensusParams.feature.pbtsEnabled g := by
  obtain ⟨⟨nValSet, changed⟩, -, h⟩ := ok_of_bind h
  obtain ⟨⟨params, lastChanged, version⟩, hparams, h⟩ := ok_of_bind h
  cases h
  refine ⟨rfl, rfl, rfl, rfl, fun g hg => ?_⟩
  obtain ⟨rfl, -⟩ | ⟨upd, rfl, hvalid, -⟩ := State.nextParams_cases hparams
  · exact ⟨rfl, rfl⟩
  · exact ConsensusParams.enabled_update hvalid hg

/-- The parameters in force at the heights from `initial` to `last`, each those of the state that
`updateState` made of the one before. -/
structure ParamsChain (hashResults : List TxResult → Bytes) (initial last : ℤ)
    (params : ℤ → ConsensusParams) : Prop where
  valid : (params initial).validateBasic = none
  next : ∀ h, initial ≤ h → h < last → ∃ state blockID header resp updates state',
    updateState hashResults state blockID header resp updates = .ok state' ∧
      header.height = h ∧ state.consensusParams = params h ∧ state'.consensusParams = params (h + 1)

/-- **Features are not enabled in retrospect.** Whether a feature is enabled at a height is the same
by the parameters of that height and by all later ones, and it stays enabled. -/
theorem features_not_retroactive {hashResults : List TxResult → Bytes} {initial last : ℤ}
    {params : ℤ → ConsensusParams} (hchain : ParamsChain hashResults initial last params)
    {g a b : ℤ} (ha : initial ≤ a) (hga : g ≤ a) (hab : a ≤ b) (hb : b ≤ last) :
    (params b).feature.voteExtensionsEnabled g = (params a).feature.voteExtensionsEnabled g ∧
      (params b).feature.pbtsEnabled g = (params a).feature.pbtsEnabled g ∧
      ((params a).feature.voteExtensionsEnabled g = .ok true →
        (params b).feature.voteExtensionsEnabled b = .ok true) ∧
      ((params a).feature.pbtsEnabled g = .ok true →
        (params b).feature.pbtsEnabled b = .ok true) := by
  have hsame : (params b).feature.voteExtensionsEnabled g =
      (params a).feature.voteExtensionsEnabled g ∧
        (params b).feature.pbtsEnabled g = (params a).feature.pbtsEnabled g := by
    induction b, hab using Int.leInduction with
    | base => exact ⟨rfl, rfl⟩
    | succ h hah ih =>
      obtain ⟨hext, hpbts⟩ := ih (by omega)
      obtain ⟨state, blockID, header, resp, updates, state', hupdate, rfl, hparams, hparams'⟩ :=
        hchain.next h (by omega) (by omega)
      obtain ⟨-, -, -, -, henabled⟩ := of_updateState hupdate
      have hstep := henabled g (by omega)
      rw [hparams, hparams'] at hstep
      exact ⟨hstep.1.trans hext, hstep.2.trans hpbts⟩
  refine ⟨hsame.1, hsame.2, fun h => ?_, fun h => ?_⟩
  · exact featureEnabled_mono (hsame.1.trans h) (hga.trans hab)
  · exact featureEnabled_mono (hsame.2.trans h) (hga.trans hab)

/-- The second block enables PBTS from the next height on. -/
def plannedParams (h : ℤ) : ConsensusParams :=
  { defaultConsensusParams with feature.pbtsEnableHeight := if h ≤ 2 then 0 else 3 }

theorem features_not_retroactive_planned : (plannedParams 3).feature.pbtsEnabled 3 = .ok true ∧
    (plannedParams 3).feature.pbtsEnabled 2 = (plannedParams 2).feature.pbtsEnabled 2 := by
  have hupdate : State.consensusParams <$> updateState (fun _ => []) secondState someID
      (secondBlock 7 []).toHeader ⟨[], [], some { feature := some ⟨none, some 3⟩ }, []⟩ [] =
      .ok (plannedParams 3) := by
    decide +kernel
  obtain ⟨state', hstate', hparams⟩ := ok_of_map hupdate
  have hchain : ParamsChain (fun _ => []) 2 3 plannedParams := by
    refine ⟨by decide, fun h hinitial hlast => ?_⟩
    obtain rfl : h = 2 := by omega
    exact ⟨_, _, _, _, _, state', hstate', rfl, rfl, hparams⟩
  exact ⟨by decide, (features_not_retroactive hchain le_rfl le_rfl (by decide) le_rfl).2.1⟩

/-! ### The commit of a majority -/

section

variable {accepted : List Vote}

section

variable (hheight : 0 < vs.height) (hround : 0 ≤ vs.round) (hvals : vs.valSet.validators ≠ [])

include hheight hround hvals

/-- The commit is read as it was written. -/
theorem decodesCommit_commitOf (hs : vs.Settled accepted) (hb : b.isComplete = true) :
    decodesCommit (vs.commitOf b).toCommit = true := by
  have hall : ∀ sig ∈ (vs.commitOf b).toCommit.signatures, sig.validateBasic = true :=
    fun sig hsig => hs.validateBasic_of_commitOf hsig
  have hne : (vs.commitOf b).toCommit.signatures ≠ [] := by
    simpa [ExtendedCommit.toCommit, VoteSet.commitOf] using hvals
  exact decide_eq_true ⟨BlockID.validateBasic_of_isComplete hb, hall,
    decide_eq_true ⟨hheight.le, hround, fun _ => ⟨BlockID.not_isNil_of_isComplete hb, hne, hall⟩⟩⟩

/-- So is the extended commit, exactly if the extensions are not too long. -/
theorem decodesExtendedCommit_commitOf (h : vs.Precommits crypto accepted)
    (hb : b.isComplete = true) : decodesExtendedCommit (vs.commitOf b) = true ↔
      ∀ ecs ∈ (vs.commitOf b).extendedSignatures, ecs.extension.length ≤ maxVoteExtensionSize := by
  refine ⟨fun hdecodes ecs hecs => ?_, fun hsize => ?_⟩
  · have hbasic := (of_decide_eq_true hdecodes).2.1 ecs hecs
    obtain ⟨i, -, rfl⟩ := mem_map.mp hecs
    have hensure := h.ensureExtension b i
    unfold ExtendedCommitSig.validateBasic at hbasic
    unfold ExtendedCommitSig.ensureExtension at hensure
    split_ifs at hbasic with hflag
    · exact (of_decide_eq_true (Bool.and_eq_true_iff.mp hbasic).2).1
    · rw [show (sigFor b (vs.votes i)).extension = [] by
        cases vs.extensionsEnabled <;> simp_all]
      exact Nat.zero_le _
  have hall : ∀ ecs ∈ (vs.commitOf b).extendedSignatures, ecs.validateBasic = true :=
    fun ecs hecs => h.validateBasic_of_extended hecs (hsize ecs hecs)
  have hne : (vs.commitOf b).extendedSignatures ≠ [] := by
    simpa [VoteSet.commitOf] using hvals
  exact decide_eq_true ⟨BlockID.validateBasic_of_isComplete hb, hall,
    decide_eq_true ⟨hheight.le, hround, fun _ => ⟨BlockID.not_isNil_of_isComplete hb, hne, hall⟩⟩⟩

end

/-- A majority is for the height of its votes, which is positive, and for some round. -/
theorem height_pos_of_maj23 (h : vs.Counted crypto accepted) (hs : vs.Settled accepted)
    (hmaj : vs.maj23 = some b) :
    0 < vs.height ∧ 0 ≤ vs.round ∧ vs.valSet.validators ≠ [] := by
  obtain ⟨v, hv, rfl⟩ := h.voted b hmaj
  obtain ⟨val, hverified⟩ := h.verified v hv
  obtain ⟨-, hheight, hround, -⟩ := of_decide_eq_true (hs.basic v hv)
  exact ⟨hverified.height ▸ hheight, hverified.round ▸ hround,
    ne_nil_of_mem (mem_of_getElem? hverified.lookup)⟩

/-- **After a restart** the commit that was stored gives a vote set with the majority, exactly if no
extension in it is too long. -/
theorem reconstructed (hvals : vs.valSet.Valid) (h : vs.Precommits crypto accepted)
    (hcounted : vs.Counted crypto accepted) (hmaj : vs.maj23 = some b) (hb : b.isComplete = true) {fp : FeatureParams}
    (hfp : fp.voteExtensionsEnabled vs.height = .ok vs.extensionsEnabled) (lastCommit : Commit)
    (hchain : state.chainID = vs.chainID) (hheight : state.lastBlockHeight = vs.height)
    (hlast : state.lastValidators = vs.valSet)
    (hext : state.consensusParams.feature.voteExtensionsEnabled vs.height =
      .ok vs.extensionsEnabled) :
    (∃ bs' vs', saveCommitted fp bs vs.height lastCommit vs = .ok bs' ∧
      reconstructLastCommit crypto bs' state = .ok vs' ∧ vs'.maj23 = some b) ↔
    (vs.extensionsEnabled = true → ∀ ecs ∈ (vs.commitOf b).extendedSignatures,
      ecs.extension.length ≤ maxVoteExtensionSize) := by
  obtain ⟨hpos, hround, hne⟩ := height_pos_of_maj23 hcounted h.settled hmaj
  have hmake := h.makeExtendedCommit_eq hmaj hfp
  unfold saveCommitted
  rw [bind_of_ok hmake, bind_of_ok hfp]
  cases henabled : vs.extensionsEnabled with
  | true =>
    rw [henabled] at hext
    obtain ⟨vs', hvs', hmaj'⟩ := h.toExtendedVoteSet_commitOf hvals hpos.ne' henabled hmaj hb
    have hall : (vs.commitOf b).extendedSignatures.all (ExtendedCommitSig.ensureExtension true)
        = true := by
      refine all_eq_true.mpr fun ecs hecs => ?_
      obtain ⟨i, -, rfl⟩ := mem_map.mp hecs
      exact henabled ▸ h.ensureExtension b i
    obtain ⟨bs', hsave⟩ := bs.exists_saveBlockWithExtendedCommit lastCommit hall
    have hload := CommitStore.load_of_saveBlockWithExtendedCommit hsave
    have hdecodes := decodesExtendedCommit_commitOf hpos hround hne h hb
    constructor
    · rintro ⟨bs'', vs'', hsave'', hreconstruct, -⟩ -
      obtain rfl := Except.ok.inj (hsave.symm.trans hsave'')
      by_contra hlong
      rw [if_neg (mt hdecodes.mp hlong)] at hload
      rw [reconstructLastCommit_of_unread (hheight ▸ hext) (by rw [hheight]; exact hload)]
        at hreconstruct
      cases hreconstruct
    · intro hsize
      rw [if_pos (hdecodes.mpr (hsize rfl))] at hload
      refine ⟨bs', vs', hsave, ?_, hmaj'⟩
      exact reconstructLastCommit_of_extended (hheight ▸ hext) (by rw [hheight]; exact hload)
        hheight.symm (by rw [hchain, hlast]; exact hvs') hmaj'
  | false =>
    rw [henabled] at hext
    obtain ⟨vs', hvs', hmaj'⟩ := h.toVoteSet_commitOf hvals hpos.ne' hmaj hb
    obtain ⟨bs', hsave⟩ := bs.exists_saveBlock lastCommit (vs.commitOf b).toCommit
    have hload := CommitStore.load_of_saveBlock (decodesCommit_commitOf hpos hround hne h.settled hb) hsave
    refine iff_of_true ⟨bs', vs', hsave, ?_, hmaj'⟩ nofun
    exact reconstructLastCommit_of_seen (hheight ▸ hext) (by rw [hheight]; exact hload) hheight.symm
      (by rw [hchain, hlast]; exact hvs') hmaj'

end

/-- **A majority gives a commit that verifies, and can be started from.** Take any precommit vote set of
the validators of a state, filled by calls of `AddVote` and `SetPeerMaj23` with votes that pass
`ValidateBasic`, with a majority for a complete id. Then `MakeExtendedCommit` succeeds, its commit
passes `VerifyCommit`, and `ToVoteSet` gives a vote set with the same majority, and with extensions
`ToExtendedVoteSet` does. When the block was applied and the node starts again, so does
`reconstructLastCommit`, exactly if the extensions that are enabled are not too long to be read. -/
theorem majority_commits {scheme : Scheme} (hscheme : scheme.Faithful) (hsized : scheme.Sized)
    {state : State} (hvals : state.validators.Established) {height round : ℤ} {ext : Bool}
    (hext : state.consensusParams.feature.voteExtensionsEnabled height = .ok ext) {s : VoteSet}
    (hnew : newVoteSet state.chainID height round .precommit state.validators ext = .ok s)
    {c : Collection}
    (hrun : Steps (Collection.next scheme.toCrypto) Collection.Basic (.mk s []) c)
    {b : BlockID} (hmaj : c.set.maj23 = some b) (hb : b.isComplete = true) :
    ∃ ec, c.set.makeExtendedCommit state.consensusParams.feature = .ok ec ∧
      verifyCommit scheme state.chainID state.validators b height ec.toCommit = .ok none ∧
      (∃ vs, ec.toCommit.toVoteSet scheme.toCrypto state.chainID state.validators = .ok vs ∧
        vs.maj23 = some b) ∧
      (ext = true →
        ∃ vs, ec.toExtendedVoteSet scheme.toCrypto state.chainID state.validators = .ok vs ∧
          vs.maj23 = some b) ∧
      ∀ (hashResults : List TxResult → Bytes) (header : Header) (resp : FinalizeBlockResponse)
        (updates : List Validator) (state' : State) (bs : CommitStore) (lastCommit : Commit),
        header.height = height →
        updateState hashResults state b header resp updates = .ok state' →
        ((∃ bs' vs, saveCommitted state.consensusParams.feature bs height lastCommit c.set = .ok bs' ∧
          reconstructLastCommit scheme.toCrypto bs' state' = .ok vs ∧ vs.maj23 = some b) ↔
        (ext = true →
          ∀ ecs ∈ ec.extendedSignatures, ecs.extension.length ≤ maxVoteExtensionSize)) := by
  obtain ⟨hgood, hcanonical, hs, hsame⟩ := Collection.settled_run hvals.toValid hnew hrun
  obtain ⟨-, rfl⟩ := newVoteSet_eq hnew
  obtain ⟨hchain, hheight, -, htype, hvalSet, hextensions⟩ := hsame
  dsimp only at hchain hheight htype hvalSet hextensions
  have hvals' : c.set.valSet.Established := hvalSet ▸ hvals
  have hfp : state.consensusParams.feature.voteExtensionsEnabled c.set.height =
      .ok c.set.extensionsEnabled := by rw [hheight, hextensions, hext]
  have hpos := (height_pos_of_maj23 hgood.counted hs hmaj).1
  have h : c.set.Precommits scheme.toCrypto c.accepted := ⟨htype, hcanonical, hs⟩
  refine ⟨c.set.commitOf b, h.makeExtendedCommit_eq hmaj hfp, ?_, ?_, ?_, ?_⟩
  · rw [← hchain, ← hvalSet, ← hheight]
    exact h.verifyCommit_commitOf hscheme hsized hvals' hmaj hb
  · rw [← hchain, ← hvalSet]
    exact h.toVoteSet_commitOf hvals'.toValid hpos.ne' hmaj hb
  · intro hext
    rw [← hchain, ← hvalSet]
    exact h.toExtendedVoteSet_commitOf hvals'.toValid hpos.ne' (hextensions.trans hext) hmaj hb
  · intro hashResults header resp updates state' bs lastCommit hheader hupdate
    obtain ⟨hchain', hheight', -, hlast, hext'⟩ := of_updateState hupdate
    rw [← hheight, ← hextensions]
    refine reconstructed hvals'.toValid h hgood.counted hmaj hb hfp lastCommit
      (hchain'.trans hchain.symm) ?_ (hlast.trans hvalSet.symm) ?_
    · rw [hheight', hheader, hheight]
    · rw [← hfp, hheight, ← hheader, (hext' _ le_rfl).1]

/-! ### A conflicting vote -/

/-- The state after the first block, with vote extensions. -/
def extendingState : State :=
  { secondState with consensusParams.feature.voteExtensionsEnableHeight := 1 }

/-- A precommit of one of the two validators for the second block, with an extension. -/
def extendedPrecommit (n : UInt8) (blockID : BlockID) : Vote where
  type := .precommit
  height := 2
  round := 0
  blockID := blockID
  timestamp := 7
  validatorAddress := replicate 20 n
  validatorIndex := n.toNat - 1
  signature := (keyOf n).bytes ++ 2 :: 0 :: 7 :: blockID.hash.headD 0 :: replicate 28 0
  extension := [5]
  extensionSignature := (keyOf n).bytes ++ [5]

def extendedPrecommits : VoteSet where
  chainID := "chain"
  height := 2
  round := 0
  signedMsgType := .precommit
  valSet := twoVals
  extensionsEnabled := true

theorem twoVals_established : twoVals.Established where
  pos := by decide
  total := by decide
  total_le := by decide
  keyTypes := by decide
  proposer := by decide

/-- The second validator votes for another block, and then for the one that the first one gave the
majority. -/
theorem majority_commits_conflicting : ∃ (c : Collection) (ec : ExtendedCommit) (vs : VoteSet),
    c.set.votes 1 = some (extendedPrecommit 2 someID) ∧
      c.set.makeExtendedCommit extendingState.consensusParams.feature = .ok ec ∧
      verifyCommit pairedScheme "chain" twoVals someID 2 ec.toCommit = .ok none ∧
      ec.toExtendedVoteSet pairedScheme.toCrypto "chain" twoVals = .ok vs ∧
      vs.maj23 = some someID := by
  have hnew : newVoteSet "chain" 2 0 .precommit twoVals true = .ok extendedPrecommits := rfl
  obtain ⟨c, hrun, hmaj, hvote⟩ := exists_of_execWhere
    (Collection.next pairedScheme.toCrypto) Collection.Basic (.mk extendedPrecommits [])
    [.addVote (extendedPrecommit 2 (Collection.completeID 1)),
      .addVote (extendedPrecommit 1 someID), .addVote (extendedPrecommit 2 someID)]
    (fun c => c.set.maj23 = some someID ∧ c.set.votes 1 = some (extendedPrecommit 2 someID))
    (by decide +kernel)
  obtain ⟨ec, hec, hverify, -, hext, -⟩ := @majority_commits pairedScheme
    pairedScheme_faithful pairedScheme_sized extendingState twoVals_established _ _ _ (by decide) _ hnew c
    hrun _ hmaj (by decide)
  obtain ⟨vs, hvs, hmaj'⟩ := hext rfl
  exact ⟨c, ec, vs, hvote, hec, hverify, hvs, hmaj'⟩

/-- **A nil precommit with an extension** is accepted by `AddVote`, which does not call `ValidateBasic`;
with the majority that the other validator gives, `MakeExtendedCommit` panics. -/
theorem extended_nil_panics : ∃ c : Collection,
    Steps (Collection.next pairedScheme.toCrypto) (fun _ _ => True) (.mk extendedPrecommits []) c ∧
      c.set.maj23 = some someID ∧
      c.set.makeExtendedCommit extendingState.consensusParams.feature =
        .error (.panic "problem with vote extension data when making extended commit") :=
  exists_of_execWhere (Collection.next pairedScheme.toCrypto) (fun _ _ => True)
    (.mk extendedPrecommits [])
    [.addVote (extendedPrecommit 1 someID), .addVote (extendedPrecommit 2 {})]
    (fun c => c.set.maj23 = some someID ∧
      c.set.makeExtendedCommit extendingState.consensusParams.feature =
        .error (.panic "problem with vote extension data when making extended commit"))
    (by decide +kernel)

end CometBFT.Consensus
