import CometBFT.Types.VoteSet

/-!
# Commits

The model of `CommitSig` and `Commit` in `types/block.go`, of the weighted median in `types/time`,
and of what is looked up in a validator set by address.

Times are nanoseconds since 1970. Where the source compares `UnixNano()`, the number goes through
`wrap64`.
-/

namespace CometBFT.Types

open List

/-- The zero of `time.Time`, at the beginning of the year 1. -/
def zeroTime : Time := -62135596800000000000

inductive BlockIDFlag where
  | absent
  | commit
  | nil
  /-- A number that is none of the constants. -/
  | other (n : UInt8)
deriving DecidableEq, Repr

structure CommitSig where
  blockIDFlag : BlockIDFlag
  validatorAddress : Bytes := []
  timestamp : Time := zeroTime
  signature : Bytes := []
deriving DecidableEq, Repr

structure Commit where
  height : ℤ
  round : ℤ
  blockID : BlockID
  signatures : List CommitSig
deriving DecidableEq, Repr

namespace CommitSig

variable (commitSig : CommitSig)

/-- `CommitSig.BlockID`: what the validator voted for. -/
def votedFor (commitBlockID : BlockID) : Except Failure BlockID :=
  match commitSig.blockIDFlag with
  | .absent => .ok {}
  | .commit => .ok commitBlockID
  | .nil => .ok {}
  | .other _ => .error (.panic "Unknown BlockIDFlag")

/-- `CommitSig.ValidateBasic`. -/
def validateBasic : Bool :=
  match commitSig.blockIDFlag with
  | .other _ => false
  | .absent =>
    commitSig.validatorAddress = [] ∧ commitSig.timestamp = zeroTime ∧ commitSig.signature = []
  | _ => commitSig.validatorAddress.length = addressSize ∧ commitSig.signature ≠ [] ∧
    commitSig.signature.length ≤ maxSignatureSize

end CommitSig

namespace Commit

variable (commit : Commit)

/-- `Commit.ValidateBasic`. -/
def validateBasic : Bool :=
  0 ≤ commit.height ∧ 0 ≤ commit.round ∧
    (1 ≤ commit.height → commit.blockID.isNil = false ∧ commit.signatures ≠ [] ∧
      ∀ commitSig ∈ commit.signatures, commitSig.validateBasic = true)

def getVote (valIdx : ℕ) : Except Failure Vote :=
  match commit.signatures[valIdx]? with
  | none => .error (.panic "index out of range")
  | some commitSig => do
    let blockID ← commitSig.votedFor commit.blockID
    return {
      type := .precommit
      height := commit.height
      round := commit.round
      blockID := blockID
      timestamp := commitSig.timestamp
      validatorAddress := commitSig.validatorAddress
      validatorIndex := valIdx
      signature := commitSig.signature }

/-- `Commit.VoteSignBytes`. -/
def voteSignBytes (crypto : Crypto) (chainID : String) (valIdx : ℕ) : Except Failure Bytes := do
  crypto.voteSignBytes chainID (← commit.getVote valIdx)

end Commit

/-- `GetByAddress` and `GetByAddressMut`: the index and the validator. -/
def ValidatorSet.getByAddress (vals : ValidatorSet) (address : Bytes) : Option (ℕ × Validator) :=
  (vals.validators.zipIdx.find? fun p => p.1.address = address).map fun p => (p.2, p.1)

/-! ### The median time -/

structure WeightedTime where
  time : Time
  weight : ℤ
deriving DecidableEq, Repr

/-- How `WeightedMedian` sorts; those that are missing come last. -/
def WeightedTime.less : Option WeightedTime → Option WeightedTime → Bool
  | none, _ => false
  | some _, none => true
  | some a, some b => wrap64 a.time < wrap64 b.time

/-- The loop of `WeightedMedian`. -/
def findMedian (median : ℤ) : List (Option WeightedTime) → Time
  | [] => zeroTime
  | none :: rest => findMedian median rest
  | some weightedTime :: rest =>
    if median ≤ weightedTime.weight then weightedTime.time
    else findMedian (median - weightedTime.weight) rest

def weightedMedian (weightedTimes : List (Option WeightedTime)) (totalVotingPower : ℤ) : Time :=
  findMedian (totalVotingPower.tdiv 2)
    (weightedTimes.insertionSort fun a b => WeightedTime.less b a = false)

/-- The sum in `MedianTime` of the weights. -/
def totalWeight (weightedTimes : List (Option WeightedTime)) : ℤ :=
  weightedTimes.foldl (fun total weightedTime =>
    match weightedTime with
    | none => total
    | some weightedTime => wrap64 (total + weightedTime.weight)) 0

/-- A timestamp weighs as much as the validator whose address stands beside it. -/
def Commit.weightedTimes (commit : Commit) (validators : ValidatorSet) :
    List (Option WeightedTime) :=
  commit.signatures.map fun commitSig =>
    if commitSig.blockIDFlag = .absent then none
    else (validators.getByAddress commitSig.validatorAddress).map fun p =>
      ⟨commitSig.timestamp, p.2.votingPower⟩

def Commit.medianTime (commit : Commit) (validators : ValidatorSet) : Time :=
  let weightedTimes := commit.weightedTimes validators
  weightedMedian weightedTimes (totalWeight weightedTimes)

/-! ### What these find -/

/-- What is found by address is at its index. -/
theorem ValidatorSet.of_getByAddress {vals : ValidatorSet} {address : Bytes} {i : ℕ}
    {val : Validator} (h : vals.getByAddress address = some (i, val)) :
    vals.validators[i]? = some val ∧ val.address = address := by
  obtain ⟨⟨val', i'⟩, hp, heq⟩ := Option.map_eq_some_iff.mp h
  cases heq
  have haddr := find?_some hp
  exact ⟨mem_zipIdx_iff_getElem?.mp (mem_of_find?_eq_some hp), of_decide_eq_true haddr⟩

/-- If the addresses are distinct, a validator is found by its own. -/
theorem ValidatorSet.getByAddress_of_nodup {vals : ValidatorSet}
    (hnodup : (Validators.addresses vals.validators).Nodup) {i : ℕ} {val : Validator}
    (h : vals.validators[i]? = some val) : vals.getByAddress val.address = some (i, val) := by
  have hmem : (val, i) ∈ vals.validators.zipIdx := mem_zipIdx_iff_getElem?.mpr h
  have hfound : (vals.validators.zipIdx.find? fun p => p.1.address = val.address).isSome = true :=
    find?_isSome.mpr ⟨(val, i), hmem, decide_eq_true rfl⟩
  obtain ⟨⟨val', j⟩, hfind⟩ := Option.isSome_iff_exists.mp hfound
  have hget : vals.getByAddress val.address = some (j, val') := by
    unfold getByAddress
    rw [hfind]
    rfl
  obtain ⟨hj, haddr⟩ := of_getByAddress hget
  have hij : j = i := by
    have hget? : ∀ {k : ℕ} {v : Validator}, vals.validators[k]? = some v →
        (Validators.addresses vals.validators)[k]? = some v.address := by
      intro k v hk
      unfold Validators.addresses
      rw [getElem?_map, hk]
      rfl
    obtain ⟨hlt, -⟩ := List.getElem?_eq_some_iff.mp (hget? hj)
    refine (List.getElem?_inj hlt hnodup).mp ?_
    rw [hget? hj, hget? h, haddr]
  subst hij
  cases hj.symm.trans h
  exact hget

/-- The vote that is reconstructed is the precommit of the signature. -/
theorem Commit.voteSignBytes_eq_ok {crypto : Crypto} {chainID : String} {commit : Commit} {idx : ℕ}
    {commitSig : CommitSig} {bytes : Bytes} (hsig : commit.signatures[idx]? = some commitSig)
    (h : commit.voteSignBytes crypto chainID idx = .ok bytes) :
    ∃ blockID canonicalID, commitSig.votedFor commit.blockID = .ok blockID ∧
      canonicalizeBlockID blockID = .ok canonicalID ∧
      crypto.encodeVote ⟨.precommit, commit.height, commit.round, canonicalID, commitSig.timestamp,
        chainID⟩ = some bytes := by
  obtain ⟨vote, hvote, h⟩ := ok_of_bind h
  unfold getVote at hvote
  rw [hsig] at hvote
  obtain ⟨blockID, hblockID, hvote⟩ := ok_of_bind hvote
  cases hvote
  obtain ⟨c, hc, hencode⟩ := Types.voteSignBytes_eq_ok.mp h
  obtain ⟨canonicalID, hcanonical, hc⟩ := ok_of_bind hc
  cases hc
  exact ⟨blockID, canonicalID, hblockID, hcanonical, hencode⟩

end CometBFT.Types
