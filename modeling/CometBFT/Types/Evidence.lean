import CometBFT.Types.Block
import CometBFT.Types.ExtendedCommit

/-!
# Evidence of attacks on light clients

The model of what `types/evidence.go` does with `LightClientAttackEvidence`. `GetByzantineValidators`
finds out who is to blame for a conflicting block: if the block could not have been derived from the
chain, the validators of the common height that signed it; if it could and has the round of the trusted
one, those that signed both; and nobody otherwise.

In the second case the signatures of the two commits are matched by index, but the validator is looked
up by the address that stands beside the signature. The address can be one that no validator has, and
then nil is put on the list.
-/

namespace CometBFT.Types

open List

/-- `sort.Sort(ValidatorsByVotingPower(...))`. It compares each entry of a list with some other one, so
that nil is dereferenced unless it is alone. -/
def sortFound (validators : List (Option Validator)) : Except Failure (List (Option Validator)) :=
  if validators.length < 2 then .ok validators
  else if validators.any Option.isNone then
    .error (.panic nilDereference)
  else .ok ((sortByVotingPower (validators.filterMap id)).map some)

namespace LightClientAttackEvidence

variable (l : LightClientAttackEvidence)

def conflictingHeaderIsInvalid (trustedHeader : Header) : Bool :=
  trustedHeader.validatorsHash ≠ l.conflictingBlock.validatorsHash ∨
    trustedHeader.nextValidatorsHash ≠ l.conflictingBlock.nextValidatorsHash ∨
    trustedHeader.consensusHash ≠ l.conflictingBlock.consensusHash ∨
    trustedHeader.appHash ≠ l.conflictingBlock.appHash ∨
    trustedHeader.lastResultsHash ≠ l.conflictingBlock.lastResultsHash

/-- The validators of the common height that voted for the block. -/
def lunatics (commonVals : ValidatorSet) : List Validator :=
  l.conflictingBlock.commit.signatures.filterMap fun commitSig =>
    if commitSig.blockIDFlag ≠ .commit then none
    else (commonVals.getByAddress commitSig.validatorAddress).map Prod.snd

/-- What the signature at an index adds to the validators that voted for both blocks. -/
def equivocator (trusted : Commit) (sigA : CommitSig) (i : ℕ) :
    Except Failure (List (Option Validator)) :=
  if sigA.blockIDFlag ≠ .commit then .ok []
  else match trusted.signatures[i]? with
  | none => .error (.panic "index out of range")
  | some sigB =>
    if sigB.blockIDFlag ≠ .commit then .ok []
    else .ok [(l.conflictingBlock.validatorSet.getByAddress sigA.validatorAddress).map Prod.snd]

def equivocators (trusted : Commit) : Except Failure (List (Option Validator)) := do
  let found ← l.conflictingBlock.commit.signatures.zipIdx.mapM fun p => l.equivocator trusted p.1 p.2
  return found.flatten

/-- `GetByzantineValidators`; the empty list is nil. -/
def getByzantineValidators (commonVals : ValidatorSet) (trusted : SignedHeader) :
    Except Failure (List (Option Validator)) :=
  if l.conflictingHeaderIsInvalid trusted.toHeader then sortFound ((l.lunatics commonVals).map some)
  else if trusted.commit.round = l.conflictingBlock.commit.round then do
    sortFound (← l.equivocators trusted.commit)
  else .ok []

end LightClientAttackEvidence

end CometBFT.Types
