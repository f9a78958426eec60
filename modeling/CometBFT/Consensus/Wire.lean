import CometBFT.Bits.BitArray
import CometBFT.Lib.Protobuf
import CometBFT.Types.PartSet

/-!
# Consensus messages on the wire

The protobuf messages of consensus (`api/cometbft/consensus/v1`) and their generated decoders, down
to the messages of `api/cometbft/types/v1`, `api/cometbft/crypto/v1` and `api/cometbft/libs/bits/v1`
that are in them. These have the fields of the native types that they are converted to, and are not
told apart from them here; nothing has been validated.

A field that is a pointer in the generated code is an `Option`: only the bit array of a
`NewValidBlock` and the vote of a `Vote` can be absent. Every other message inside a message is a
struct, zero if it is absent.

## Main definitions

* `Cmtcons.Message.unmarshal`, `Cmtcons.Message.unwrap`
* `decodeNativeMessage` — one after the other, as the bytes of a consensus channel are decoded
-/

namespace CometBFT.Cmtcons

open Protobuf CometBFT.Types Bits

/-! ### Messages inside messages -/

def signedMsgType (v : ℕ) : SignedMsgType :=
  match int32 v with
  | 0 => .unknown
  | 1 => .prevote
  | 2 => .precommit
  | 32 => .proposal
  | n => .other n

/-- No field is packed. -/
def noPacked (_ : ℕ) : Bool := false

/-- A field that is a message, decoded over what is there. -/
def onField {α β : Type*} (p : Payload) (set : Setter α) (m : α) (f : α → β) : Option β :=
  onMessage p fun b => (unmarshal noPacked set m b).map f

def PartSetHeader.set : Setter PartSetHeader := fun m number p =>
  match number with
  | 1 => onVarint p fun v => { m with total := uint32 v }
  | 2 => onBytes p fun b => { m with hash := b }
  | _ => some m

def BlockID.set : Setter BlockID := fun m number p =>
  match number with
  | 1 => onBytes p fun b => { m with hash := b }
  | 2 => onField p PartSetHeader.set m.partSetHeader fun psh => { m with partSetHeader := psh }
  | _ => some m

def BitArray.set : Setter BitArray := fun m number p =>
  match number with
  | 1 => onVarint p fun v => { m with bits := int64 v }
  | 2 =>
    match p with
    | .varint v => some { m with elems := m.elems ++ [BitVec.ofNat 64 v] }
    | .packed vs => some { m with elems := m.elems ++ vs.map (BitVec.ofNat 64) }
    | _ => none
  | _ => some m

/-- The words of a bit array are packed. -/
def BitArray.unmarshal (m : BitArray) (bytes : Bytes) : Option BitArray :=
  Protobuf.unmarshal (· = 2) BitArray.set m bytes

/-- The seconds and the nanoseconds of a `google.protobuf.Timestamp`. -/
def Timestamp.set : Setter (ℤ × ℤ) := fun m number p =>
  match number with
  | 1 => onVarint p fun v => (int64 v, m.2)
  | 2 => onVarint p fun v => (m.1, int32 v)
  | _ => some m

def minValidSeconds : ℤ := -62135596800

def maxValidSeconds : ℤ := 253402300800

/-- `StdTimeUnmarshal`. -/
def stdTimeUnmarshal (bytes : Bytes) : Option Time :=
  (unmarshal noPacked Timestamp.set (0, 0) bytes).bind fun ts =>
    if minValidSeconds ≤ ts.1 ∧ ts.1 < maxValidSeconds ∧ 0 ≤ ts.2 ∧ ts.2 < 1000000000 then
      some (ts.1 * 1000000000 + ts.2)
    else none

def Vote.set : Setter Types.Vote := fun m number p =>
  match number with
  | 1 => onVarint p fun v => { m with type := signedMsgType v }
  | 2 => onVarint p fun v => { m with height := int64 v }
  | 3 => onVarint p fun v => { m with round := int32 v }
  | 4 => onField p BlockID.set m.blockID fun id => { m with blockID := id }
  | 5 => onMessage p fun b => (stdTimeUnmarshal b).map fun t => { m with timestamp := t }
  | 6 => onBytes p fun b => { m with validatorAddress := b }
  | 7 => onVarint p fun v => { m with validatorIndex := int32 v }
  | 8 => onBytes p fun b => { m with signature := b }
  | 9 => onBytes p fun b => { m with extension := b }
  | 10 => onBytes p fun b => { m with extensionSignature := b }
  | _ => some m

/-- The zero value of a vote. -/
def zeroVote : Types.Vote :=
  { type := .unknown, height := 0, round := 0, timestamp := zeroTime, validatorAddress := [],
    validatorIndex := 0 }

def Proposal.set : Setter Types.Proposal := fun m number p =>
  match number with
  | 1 => onVarint p fun v => { m with type := signedMsgType v }
  | 2 => onVarint p fun v => { m with height := int64 v }
  | 3 => onVarint p fun v => { m with round := int32 v }
  | 4 => onVarint p fun v => { m with polRound := int32 v }
  | 5 => onField p BlockID.set m.blockID fun id => { m with blockID := id }
  | 6 => onMessage p fun b => (stdTimeUnmarshal b).map fun t => { m with timestamp := t }
  | 7 => onBytes p fun b => { m with signature := b }
  | _ => some m

/-- The zero value of a proposal. -/
def zeroProposal : Types.Proposal :=
  { type := .unknown, height := 0, round := 0, polRound := 0, blockID := {}, timestamp := zeroTime }

def Proof.set : Setter Merkle.Proof := fun m number p =>
  match number with
  | 1 => onVarint p fun v => { m with total := int64 v }
  | 2 => onVarint p fun v => { m with index := int64 v }
  | 3 => onBytes p fun b => { m with leafHash := b }
  | 4 => onBytes p fun b => { m with aunts := m.aunts ++ [b] }
  | _ => some m

def Part.set : Setter Part := fun m number p =>
  match number with
  | 1 => onVarint p fun v => { m with index := uint32 v }
  | 2 => onBytes p fun b => { m with bytes := b }
  | 3 => onField p Proof.set m.proof fun proof => { m with proof }
  | _ => some m

/-- The zero value of a part. -/
def zeroPart : Part := ⟨0, [], { total := 0, index := 0 }⟩

/-! ### The ten messages -/

structure NewRoundStep where
  height : ℤ := 0
  round : ℤ := 0
  step : UInt32 := 0
  secondsSinceStartTime : ℤ := 0
  lastCommitRound : ℤ := 0
deriving DecidableEq, Repr

def NewRoundStep.set : Setter NewRoundStep := fun m number p =>
  match number with
  | 1 => onVarint p fun v => { m with height := int64 v }
  | 2 => onVarint p fun v => { m with round := int32 v }
  | 3 => onVarint p fun v => { m with step := uint32 v }
  | 4 => onVarint p fun v => { m with secondsSinceStartTime := int64 v }
  | 5 => onVarint p fun v => { m with lastCommitRound := int32 v }
  | _ => some m

structure NewValidBlock where
  height : ℤ := 0
  round : ℤ := 0
  blockPartSetHeader : PartSetHeader := {}
  blockParts : Option BitArray := none
  isCommit : Bool := false
deriving DecidableEq, Repr

def NewValidBlock.set : Setter NewValidBlock := fun m number p =>
  match number with
  | 1 => onVarint p fun v => { m with height := int64 v }
  | 2 => onVarint p fun v => { m with round := int32 v }
  | 3 => onField p PartSetHeader.set m.blockPartSetHeader fun psh =>
      { m with blockPartSetHeader := psh }
  | 4 => onMessage p fun b => (BitArray.unmarshal (m.blockParts.getD {}) b).map fun bits =>
      { m with blockParts := some bits }
  | 5 => onVarint p fun v => { m with isCommit := v ≠ 0 }
  | _ => some m

structure ProposalPOL where
  height : ℤ := 0
  proposalPolRound : ℤ := 0
  proposalPol : BitArray := {}
deriving DecidableEq, Repr

def ProposalPOL.set : Setter ProposalPOL := fun m number p =>
  match number with
  | 1 => onVarint p fun v => { m with height := int64 v }
  | 2 => onVarint p fun v => { m with proposalPolRound := int32 v }
  | 3 => onMessage p fun b => (BitArray.unmarshal m.proposalPol b).map fun bits =>
      { m with proposalPol := bits }
  | _ => some m

structure BlockPart where
  height : ℤ := 0
  round : ℤ := 0
  part : Part := zeroPart
deriving DecidableEq, Repr

def BlockPart.set : Setter BlockPart := fun m number p =>
  match number with
  | 1 => onVarint p fun v => { m with height := int64 v }
  | 2 => onVarint p fun v => { m with round := int32 v }
  | 3 => onField p Part.set m.part fun part => { m with part }
  | _ => some m

structure HasVote where
  height : ℤ := 0
  round : ℤ := 0
  type : SignedMsgType := .unknown
  index : ℤ := 0
deriving DecidableEq, Repr

def HasVote.set : Setter HasVote := fun m number p =>
  match number with
  | 1 => onVarint p fun v => { m with height := int64 v }
  | 2 => onVarint p fun v => { m with round := int32 v }
  | 3 => onVarint p fun v => { m with type := signedMsgType v }
  | 4 => onVarint p fun v => { m with index := int32 v }
  | _ => some m

structure HasProposalBlockPart where
  height : ℤ := 0
  round : ℤ := 0
  index : ℤ := 0
deriving DecidableEq, Repr

def HasProposalBlockPart.set : Setter HasProposalBlockPart := fun m number p =>
  match number with
  | 1 => onVarint p fun v => { m with height := int64 v }
  | 2 => onVarint p fun v => { m with round := int32 v }
  | 3 => onVarint p fun v => { m with index := int32 v }
  | _ => some m

structure VoteSetMaj23 where
  height : ℤ := 0
  round : ℤ := 0
  type : SignedMsgType := .unknown
  blockID : BlockID := {}
deriving DecidableEq, Repr

def VoteSetMaj23.set : Setter VoteSetMaj23 := fun m number p =>
  match number with
  | 1 => onVarint p fun v => { m with height := int64 v }
  | 2 => onVarint p fun v => { m with round := int32 v }
  | 3 => onVarint p fun v => { m with type := signedMsgType v }
  | 4 => onField p BlockID.set m.blockID fun id => { m with blockID := id }
  | _ => some m

structure VoteSetBits where
  height : ℤ := 0
  round : ℤ := 0
  type : SignedMsgType := .unknown
  blockID : BlockID := {}
  votes : BitArray := {}
deriving DecidableEq, Repr

def VoteSetBits.set : Setter VoteSetBits := fun m number p =>
  match number with
  | 1 => onVarint p fun v => { m with height := int64 v }
  | 2 => onVarint p fun v => { m with round := int32 v }
  | 3 => onVarint p fun v => { m with type := signedMsgType v }
  | 4 => onField p BlockID.set m.blockID fun id => { m with blockID := id }
  | 5 => onMessage p fun b => (BitArray.unmarshal m.votes b).map fun bits => { m with votes := bits }
  | _ => some m

/-- A message, as `Unwrap` returns it. A `Proposal` holds nothing but the proposal, and a `Vote`
nothing but the vote, which can be absent. -/
inductive Body where
  | newRoundStep (m : NewRoundStep)
  | newValidBlock (m : NewValidBlock)
  | proposal (proposal : Types.Proposal)
  | proposalPOL (m : ProposalPOL)
  | blockPart (m : BlockPart)
  | vote (vote : Option Types.Vote)
  | hasVote (m : HasVote)
  | hasProposalBlockPart (m : HasProposalBlockPart)
  | voteSetMaj23 (m : VoteSetMaj23)
  | voteSetBits (m : VoteSetBits)
deriving DecidableEq, Repr

/-- The one field of a `Proposal`. -/
def setProposal : Setter Types.Proposal := fun m number p =>
  match number with
  | 1 => onMessage p (unmarshal noPacked Proposal.set m)
  | _ => some m

/-- The one field of a `Vote`. -/
def setVote : Setter (Option Types.Vote) := fun m number p =>
  match number with
  | 1 => onField p Vote.set (m.getD zeroVote) some
  | _ => some m

/-- The container; of several fields the last counts. -/
structure Message where
  sum : Option Body := none
deriving DecidableEq, Repr

namespace Message

def set : Setter Message := fun m number p =>
  match number with
  | 1 => onField p NewRoundStep.set {} fun v => ⟨some (.newRoundStep v)⟩
  | 2 => onField p NewValidBlock.set {} fun v => ⟨some (.newValidBlock v)⟩
  | 3 => onField p setProposal zeroProposal fun v => ⟨some (.proposal v)⟩
  | 4 => onField p ProposalPOL.set {} fun v => ⟨some (.proposalPOL v)⟩
  | 5 => onField p BlockPart.set {} fun v => ⟨some (.blockPart v)⟩
  | 6 => onField p setVote none fun v => ⟨some (.vote v)⟩
  | 7 => onField p HasVote.set {} fun v => ⟨some (.hasVote v)⟩
  | 8 => onField p VoteSetMaj23.set {} fun v => ⟨some (.voteSetMaj23 v)⟩
  | 9 => onField p VoteSetBits.set {} fun v => ⟨some (.voteSetBits v)⟩
  | 10 => onField p HasProposalBlockPart.set {} fun v => ⟨some (.hasProposalBlockPart v)⟩
  | _ => some m

def unmarshal (wire : Bytes) : Option Message := Protobuf.unmarshal noPacked set {} wire

/-- `Unwrap`; a container without a message is unknown. -/
def unwrap (m : Message) : Option Body := m.sum

end Message

/-- `decodeNativeMessage` for the prototype of the consensus channels. -/
def decodeNativeMessage (wire : Bytes) : Option Body := (Message.unmarshal wire).bind Message.unwrap

end CometBFT.Cmtcons
