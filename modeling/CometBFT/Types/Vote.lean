import CometBFT.Lib.Except
import CometBFT.Types.BlockID

/-!
# Votes and proposals

The model of `types/vote.go`, `types/proposal.go` and `types/canonical.go`: what is signed of a vote,
a vote extension and a proposal, and how signatures are checked.

Signing, the encoding of what is signed and the address of a public key are in libraries or in
generated code. They are a parameter, `Crypto`. A function of the source that returns an error returns
an `Option` here; a panic is a `Failure`. Times are nanoseconds.
-/

namespace CometBFT.Types

abbrev Time := ℤ

inductive SignedMsgType where
  | unknown
  | prevote
  | precommit
  | proposal
  /-- A number that is none of the constants; protobuf decodes it all the same. -/
  | other (n : ℤ)
deriving DecidableEq, Repr

/-- `IsVoteTypeValid`. -/
def SignedMsgType.isVoteTypeValid : SignedMsgType → Bool
  | .prevote => true
  | .precommit => true
  | _ => false

structure Vote where
  type : SignedMsgType
  height : ℤ
  round : ℤ
  blockID : BlockID := {}
  timestamp : Time := 0
  validatorAddress : Bytes
  validatorIndex : ℤ
  signature : Bytes := []
  extension : Bytes := []
  extensionSignature : Bytes := []
deriving DecidableEq, Repr

structure Proposal where
  type : SignedMsgType := .proposal
  height : ℤ
  round : ℤ
  polRound : ℤ := -1
  blockID : BlockID
  timestamp : Time := 0
  signature : Bytes := []
deriving DecidableEq, Repr

/-! ### What is signed -/

structure CanonicalVote where
  type : SignedMsgType
  height : ℤ
  round : ℤ
  blockID : Option BlockID
  timestamp : Time
  chainID : String
deriving DecidableEq, Repr

structure CanonicalVoteExtension where
  extension : Bytes
  height : ℤ
  round : ℤ
  chainID : String
deriving DecidableEq, Repr

structure CanonicalProposal where
  type : SignedMsgType := .proposal
  height : ℤ
  round : ℤ
  polRound : ℤ
  blockID : Option BlockID
  timestamp : Time
  chainID : String
deriving DecidableEq, Repr

/-- The canonical form of the nil id is no id. -/
def canonicalizeBlockID (bid : BlockID) : Except Failure (Option BlockID) :=
  if bid.validateBasic then .ok (if bid.isNil then none else some bid)
  else .error (.panic "wrong BlockID")

def canonicalizeVote (chainID : String) (vote : Vote) : Except Failure CanonicalVote := do
  let blockID ← canonicalizeBlockID vote.blockID
  return ⟨vote.type, vote.height, vote.round, blockID, vote.timestamp, chainID⟩

def canonicalizeVoteExtension (chainID : String) (vote : Vote) : CanonicalVoteExtension :=
  ⟨vote.extension, vote.height, vote.round, chainID⟩

def canonicalizeProposal (chainID : String) (proposal : Proposal) :
    Except Failure CanonicalProposal := do
  let blockID ← canonicalizeBlockID proposal.blockID
  return ⟨.proposal, proposal.height, proposal.round, proposal.polRound, blockID,
    proposal.timestamp, chainID⟩

/-- Public keys and the delimited protobuf encoding. -/
structure Crypto where
  address : PubKey → Bytes
  verifySignature : PubKey → Bytes → Bytes → Bool
  /-- None if it cannot be encoded, as with a time before the year 1 or after 9999. -/
  encodeVote : CanonicalVote → Option Bytes
  encodeVoteExtension : CanonicalVoteExtension → Bytes
  encodeProposal : CanonicalProposal → Option Bytes

namespace Crypto

variable (crypto : Crypto)

/-- `MarshalDelimited`, an error of which is a panic. -/
def marshalDelimited (bytes : Option Bytes) : Except Failure Bytes :=
  match bytes with
  | some bytes => .ok bytes
  | none => .error (.panic "cannot marshal")

def voteSignBytes (chainID : String) (vote : Vote) : Except Failure Bytes := do
  marshalDelimited (crypto.encodeVote (← canonicalizeVote chainID vote))

def voteExtensionSignBytes (chainID : String) (vote : Vote) : Bytes :=
  crypto.encodeVoteExtension (canonicalizeVoteExtension chainID vote)

def proposalSignBytes (chainID : String) (proposal : Proposal) : Except Failure Bytes := do
  marshalDelimited (crypto.encodeProposal (← canonicalizeProposal chainID proposal))

end Crypto

variable {bytes : Bytes} {chainID : String} {crypto : Crypto}

theorem Crypto.marshalDelimited_eq_ok {o : Option Bytes} :
    marshalDelimited o = .ok bytes ↔ o = some bytes := by
  cases o with
  | none => exact ⟨(nomatch ·), (nomatch ·)⟩
  | some b => exact ⟨fun h => congrArg some (Except.ok.inj h), fun h => congrArg _ (Option.some.inj h)⟩

theorem signBytes_eq_ok {κ : Type} {canonical : Except Failure κ} {encode : κ → Option Bytes} :
    (do Crypto.marshalDelimited (encode (← canonical))) = .ok bytes ↔
      ∃ c, canonical = .ok c ∧ encode c = some bytes := by
  constructor
  · intro h
    obtain ⟨c, hc, h⟩ := ok_of_bind h
    exact ⟨c, hc, Crypto.marshalDelimited_eq_ok.mp h⟩
  · rintro ⟨c, rfl, hencode⟩
    exact Crypto.marshalDelimited_eq_ok.mpr hencode

theorem voteSignBytes_eq_ok {vote : Vote} :
    crypto.voteSignBytes chainID vote = .ok bytes ↔
      ∃ c, canonicalizeVote chainID vote = .ok c ∧ crypto.encodeVote c = some bytes :=
  signBytes_eq_ok

theorem proposalSignBytes_eq_ok {proposal : Proposal} :
    crypto.proposalSignBytes chainID proposal = .ok bytes ↔
      ∃ c, canonicalizeProposal chainID proposal = .ok c ∧
        crypto.encodeProposal c = some bytes :=
  signBytes_eq_ok

/-! ### Height, round and step -/

/-- Height, round and step, in lexicographic order. -/
abbrev HRS := ℤ ×ₗ ℤ ×ₗ ℤ

def hrs (height round step : ℤ) : HRS := toLex (height, toLex (round, step))

theorem hrs_lt_iff {h r s h' r' s' : ℤ} :
    hrs h r s < hrs h' r' s' ↔ h < h' ∨ h = h' ∧ (r < r' ∨ r = r' ∧ s < s') := by
  rw [hrs, hrs, Prod.Lex.toLex_lt_toLex, Prod.Lex.toLex_lt_toLex]

theorem hrs_inj {h r s h' r' s' : ℤ} :
    hrs h r s = hrs h' r' s' ↔ h = h' ∧ r = r' ∧ s = s' := by
  rw [hrs, hrs, toLex_inj, Prod.mk.injEq, toLex_inj, Prod.mk.injEq]

/-! ### Checking a vote -/

inductive VoteError where
  | unexpectedStep
  | invalidValidatorIndex
  | invalidValidatorAddress
  | invalidSignature
  | noSignature
  | nonDeterministicSignature
  | unexpectedExtension
  | conflictingVotes (voteA voteB : Vote)
deriving DecidableEq, Repr

/-- `Vote.Verify`, the method `verifyAndReturnProto` without what it returns. -/
def Vote.verify (crypto : Crypto) (chainID : String) (pubKey : PubKey) (vote : Vote) :
    Except Failure (Option VoteError) :=
  if crypto.address pubKey ≠ vote.validatorAddress then .ok (some .invalidValidatorAddress)
  else do
    let signBytes ← crypto.voteSignBytes chainID vote
    if crypto.verifySignature pubKey signBytes vote.signature then return none
    else return some .invalidSignature

/-- The signature of the extension, which only a precommit for a block has. -/
def Vote.verifyExtension (crypto : Crypto) (chainID : String) (pubKey : PubKey) (vote : Vote) :
    Option VoteError :=
  if vote.type ≠ .precommit ∨ vote.blockID.isNil then none
  else if vote.extensionSignature = [] then some .noSignature
  else if crypto.verifySignature pubKey (crypto.voteExtensionSignBytes chainID vote)
      vote.extensionSignature then none
  else some .invalidSignature

def Vote.verifyVoteAndExtension (crypto : Crypto) (chainID : String) (pubKey : PubKey)
    (vote : Vote) : Except Failure (Option VoteError) := do
  match ← vote.verify crypto chainID pubKey with
  | some e => return some e
  | none => return vote.verifyExtension crypto chainID pubKey

/-- `crypto.AddressSize`. -/
def addressSize : ℕ := 20

def maxSignatureSize : ℕ := 96

/-- `Vote.ValidateBasic`. -/
def Vote.validateBasic (vote : Vote) : Bool :=
  vote.type.isVoteTypeValid ∧ 0 < vote.height ∧ 0 ≤ vote.round ∧ vote.blockID.validateBasic ∧
    (vote.blockID.isNil ∨ vote.blockID.isComplete) ∧
    vote.validatorAddress.length = addressSize ∧ 0 ≤ vote.validatorIndex ∧
    vote.signature ≠ [] ∧ vote.signature.length ≤ maxSignatureSize ∧
    (if vote.type ≠ .precommit ∨ vote.blockID.isNil then
      vote.extension = [] ∧ vote.extensionSignature = []
    else vote.extensionSignature.length ≤ maxSignatureSize ∧
      (vote.extensionSignature = [] → vote.extension = []))

/-- `Proposal.ValidateBasic`. Times have no location here, so that each is canonical. -/
def Proposal.validateBasic (proposal : Proposal) : Bool :=
  proposal.type = .proposal ∧ 0 < proposal.height ∧ 0 ≤ proposal.round ∧ -1 ≤ proposal.polRound ∧
    proposal.polRound < proposal.round ∧ proposal.blockID.validateBasic ∧
    proposal.blockID.isComplete ∧ proposal.signature ≠ [] ∧
    proposal.signature.length ≤ maxSignatureSize

/-- A vote that verifies has the address of the key and a signature under it. -/
theorem Vote.of_verify_eq_none {pubKey : PubKey} {vote : Vote}
    (h : vote.verify crypto chainID pubKey = .ok none) :
    crypto.address pubKey = vote.validatorAddress ∧ vote.blockID.validateBasic = true ∧
      ∃ bytes, crypto.voteSignBytes chainID vote = .ok bytes ∧
        crypto.verifySignature pubKey bytes vote.signature = true := by
  unfold Vote.verify at h
  split at h
  · cases h
  rename_i haddr
  cases hbytes : crypto.voteSignBytes chainID vote with
  | error e =>
    rw [hbytes] at h
    cases h
  | ok bytes =>
    rw [hbytes] at h
    refine ⟨not_not.mp haddr, ?_, bytes, rfl, ?_⟩
    · by_contra hbasic
      unfold Crypto.voteSignBytes canonicalizeVote canonicalizeBlockID at hbytes
      rw [if_neg hbasic] at hbytes
      cases hbytes
    · by_contra hsig
      change (if _ then _ else _) = _ at h
      rw [if_neg hsig] at h
      cases h

end CometBFT.Types
