import CometBFT.Consensus.Wire
import CometBFT.Mediation.Machine

/-!
# Native consensus messages

The model of `internal/consensus/msgs.go` and of the messages in `internal/consensus/reactor.go`: how
a protobuf message becomes a native one, and what is checked of it. The same conversion stands at the
entry of the consensus Reactor and behind the callback of controller mediation, where the bytes come
from outside the node.

Nine of the ten conversions look at structs, which are there even if the peer has sent nothing. The
vote of a `Vote` is a pointer, and `VoteFromProto` does not ask whether it is nil.

An error of the source is an `Except MsgError`; around it stands an `Except RuntimeError` for the
panics. The errors of `ValidateBasic` on a vote, a proposal, a part or a block id are not told apart.

## Main results

* `decoding_total` — exactly unless a vote is missing, bytes are decoded to a valid message or
  rejected
* `decoding_panics` — the two bytes that stop the handler
-/

namespace CometBFT.Consensus

open CometBFT.Types Bits Cmtcons

/-! ### Native messages -/

structure NewRoundStepMessage where
  height : ℤ
  round : ℤ
  step : UInt8
  secondsSinceStartTime : ℤ
  lastCommitRound : ℤ
deriving DecidableEq, Repr

structure NewValidBlockMessage where
  height : ℤ
  round : ℤ
  blockPartSetHeader : PartSetHeader
  blockParts : BitArray
  isCommit : Bool
deriving DecidableEq, Repr

structure ProposalPOLMessage where
  height : ℤ
  proposalPOLRound : ℤ
  proposalPOL : BitArray
deriving DecidableEq, Repr

structure BlockPartMessage where
  height : ℤ
  round : ℤ
  part : Part
deriving DecidableEq, Repr

structure HasVoteMessage where
  height : ℤ
  round : ℤ
  type : SignedMsgType
  index : ℤ
deriving DecidableEq, Repr

structure HasProposalBlockPartMessage where
  height : ℤ
  round : ℤ
  index : ℤ
deriving DecidableEq, Repr

structure VoteSetMaj23Message where
  height : ℤ
  round : ℤ
  type : SignedMsgType
  blockID : BlockID
deriving DecidableEq, Repr

structure VoteSetBitsMessage where
  height : ℤ
  round : ℤ
  type : SignedMsgType
  blockID : BlockID
  votes : BitArray
deriving DecidableEq, Repr

/-- `Message`. -/
inductive Msg where
  | newRoundStep (m : NewRoundStepMessage)
  | newValidBlock (m : NewValidBlockMessage)
  | proposal (proposal : Types.Proposal)
  | proposalPOL (m : ProposalPOLMessage)
  | blockPart (m : BlockPartMessage)
  | vote (vote : Types.Vote)
  | hasVote (m : HasVoteMessage)
  | hasProposalBlockPart (m : HasProposalBlockPartMessage)
  | voteSetMaj23 (m : VoteSetMaj23Message)
  | voteSetBits (m : VoteSetBitsMessage)
deriving DecidableEq, Repr

inductive MsgError where
  | nilMessage
  /-- `ErrDenyMessageOverflow` -/
  | denyMessageOverflow
  /-- `ErrMsgToProto` -/
  | msgToProto (messageName : String)
  | negativeField (field : String)
  | invalidField (field reason : String)
  | wrongField (field : String)
  | requiredField (field : String)
  /-- the bit array and the part set header differ -/
  | notTotal (size : ℤ) (total : UInt32)
  | tooBig (array : String) (size max : ℤ)
  /-- what `Vote.ValidateBasic` or `Proposal.ValidateBasic` returns -/
  | invalid
deriving DecidableEq, Repr

/-! ### Basic validation -/

def maxBlockPartsCount : ℤ := maxBlockSizeBytes / blockPartSizeBytes + 1

def maxVotesCount : ℤ := 10000

/-- `RoundStepType.IsValid`. -/
def isValidStep (step : UInt8) : Bool := 1 ≤ step ∧ step ≤ 8

def NewRoundStepMessage.validateBasic (m : NewRoundStepMessage) : Option MsgError :=
  if m.height < 0 then some (.negativeField "Height")
  else if m.round < 0 then some (.negativeField "Round")
  else if !isValidStep m.step then some (.invalidField "Step" "")
  else if m.lastCommitRound < -1 then some (.invalidField "LastCommitRound" "cannot be < -1")
  else none

/-- Whether `ValidateHeight` returns nil. -/
def NewRoundStepMessage.validateHeight (m : NewRoundStepMessage) (initialHeight : ℤ) : Bool :=
  ¬m.height < initialHeight ∧ ¬(m.height = initialHeight ∧ m.lastCommitRound ≠ -1) ∧
    ¬(m.height > initialHeight ∧ m.lastCommitRound < 0)

def NewValidBlockMessage.validateBasic (m : NewValidBlockMessage) : Option MsgError :=
  if m.height < 0 then some (.negativeField "Height")
  else if m.round < 0 then some (.negativeField "Round")
  else if !m.blockPartSetHeader.validateBasic then some (.wrongField "BlockPartSetHeader")
  else if m.blockParts.bits = 0 then some (.requiredField "blockParts")
  else if m.blockParts.bits ≠ m.blockPartSetHeader.total.toNat then
    some (.notTotal m.blockParts.bits m.blockPartSetHeader.total)
  else if m.blockParts.bits > maxBlockPartsCount then
    some (.tooBig "blockParts" m.blockParts.bits maxBlockPartsCount)
  else none

def ProposalPOLMessage.validateBasic (m : ProposalPOLMessage) : Option MsgError :=
  if m.height < 0 then some (.negativeField "Height")
  else if m.proposalPOLRound < 0 then some (.negativeField "ProposalPOLRound")
  else if m.proposalPOL.bits = 0 then some (.requiredField "ProposalPOL")
  else if m.proposalPOL.bits > maxVotesCount then
    some (.tooBig "proposalPOL" m.proposalPOL.bits maxVotesCount)
  else none

def BlockPartMessage.validateBasic (m : BlockPartMessage) : Option MsgError :=
  if m.height < 0 then some (.negativeField "Height")
  else if m.round < 0 then some (.negativeField "Round")
  else if !m.part.validateBasic then some (.wrongField "Part")
  else none

def HasVoteMessage.validateBasic (m : HasVoteMessage) : Option MsgError :=
  if m.height < 0 then some (.negativeField "Height")
  else if m.round < 0 then some (.negativeField "Round")
  else if !m.type.isVoteTypeValid then some (.invalidField "Type" "")
  else if m.index < 0 then some (.negativeField "Index")
  else none

def HasProposalBlockPartMessage.validateBasic (m : HasProposalBlockPartMessage) :
    Option MsgError :=
  if m.height < 1 then some (.invalidField "Height" "( < 1 )")
  else if m.round < 0 then some (.negativeField "Round")
  else if m.index < 0 then some (.negativeField "Index")
  else none

def VoteSetMaj23Message.validateBasic (m : VoteSetMaj23Message) : Option MsgError :=
  if m.height < 0 then some (.negativeField "Height")
  else if m.round < 0 then some (.negativeField "Round")
  else if !m.type.isVoteTypeValid then some (.invalidField "Type" "")
  else if !m.blockID.validateBasic then some (.wrongField "BlockID")
  else none

/-- The round is not checked. -/
def VoteSetBitsMessage.validateBasic (m : VoteSetBitsMessage) : Option MsgError :=
  if m.height < 0 then some (.negativeField "Height")
  else if !m.type.isVoteTypeValid then some (.invalidField "Type" "")
  else if !m.blockID.validateBasic then some (.wrongField "BlockID")
  else if m.votes.bits > maxVotesCount then some (.tooBig "votes" m.votes.bits maxVotesCount)
  else none

def Msg.validateBasic : Msg → Option MsgError
  | .newRoundStep m => m.validateBasic
  | .newValidBlock m => m.validateBasic
  | .proposal p => if p.validateBasic then none else some .invalid
  | .proposalPOL m => m.validateBasic
  | .blockPart m => m.validateBasic
  | .vote v => if v.validateBasic then none else some .invalid
  | .hasVote m => m.validateBasic
  | .hasProposalBlockPart m => m.validateBasic
  | .voteSetMaj23 m => m.validateBasic
  | .voteSetBits m => m.validateBasic

/-! ### Conversion -/

/-- A struct that is converted by `PartSetHeaderFromProto`, `BlockIDFromProto`, `ProposalFromProto` or
`PartFromProto`, each of which returns it if it is valid. -/
def fromProto {α : Type*} (messageName : String) (validateBasic : α → Bool) (pb : α) :
    Except MsgError α :=
  if validateBasic pb then .ok pb else .error (.msgToProto messageName)

/-- `ProofFromProto` comes first. -/
def partFromProto (pb : Part) : Except MsgError Part :=
  if pb.proof.validateBasic then fromProto "Part" Part.validateBasic pb
  else .error (.msgToProto "Part")

/-- `ProposalFromProto`; the block id is converted first. -/
def proposalFromProto (pb : Types.Proposal) : Except MsgError Types.Proposal :=
  if pb.blockID.validateBasic then fromProto "Proposal" Types.Proposal.validateBasic pb
  else .error (.msgToProto "Proposal")

/-- `VoteFromProto`. -/
def voteFromProto : Option Types.Vote → Except RuntimeError (Except MsgError Types.Vote)
  | none => .error .nilDereference
  | some pv => .ok (fromProto "Vote" (fun v => v.blockID.validateBasic) pv)

/-- The native message, before it is validated. -/
def convert : Body → Except RuntimeError (Except MsgError Msg)
  | .newRoundStep msg => .ok <|
    if msg.step.toNat > 255 then .error .denyMessageOverflow
    else .ok (.newRoundStep ⟨msg.height, msg.round, msg.step.toUInt8, msg.secondsSinceStartTime,
      msg.lastCommitRound⟩)
  | .newValidBlock msg => .ok <|
    (fromProto "BlockPartSetHeader" PartSetHeader.validateBasic msg.blockPartSetHeader).map fun psh =>
      .newValidBlock ⟨msg.height, msg.round, psh, BitArray.fromProto msg.blockParts, msg.isCommit⟩
  | .proposal pb => .ok <| (proposalFromProto pb).map .proposal
  | .proposalPOL msg => .ok <| .ok <|
    .proposalPOL ⟨msg.height, msg.proposalPolRound, BitArray.fromProto (some msg.proposalPol)⟩
  | .blockPart msg => .ok <| (partFromProto msg.part).map fun part =>
    .blockPart ⟨msg.height, msg.round, part⟩
  | .vote pv => (voteFromProto pv).map fun vote => vote.map .vote
  | .hasVote msg => .ok <| .ok <| .hasVote ⟨msg.height, msg.round, msg.type, msg.index⟩
  | .hasProposalBlockPart msg => .ok <| .ok <|
    .hasProposalBlockPart ⟨msg.height, msg.round, msg.index⟩
  | .voteSetMaj23 msg => .ok <|
    (fromProto "VoteSetMaj23" BlockID.validateBasic msg.blockID).map fun bi =>
      .voteSetMaj23 ⟨msg.height, msg.round, msg.type, bi⟩
  | .voteSetBits msg => .ok <|
    (fromProto "VoteSetBits" BlockID.validateBasic msg.blockID).map fun bi =>
      .voteSetBits ⟨msg.height, msg.round, msg.type, bi, BitArray.fromProto (some msg.votes)⟩

/-- The check at the end of `MsgFromProto`. -/
def validated (msg : Msg) : Except MsgError Msg :=
  match msg.validateBasic with
  | some err => .error err
  | none => .ok msg

def msgFromProto : Option Body → Except RuntimeError (Except MsgError Msg)
  | none => .ok (.error .nilMessage)
  | some p => (convert p).map fun converted => converted.bind validated

/-- The way of the bytes of a consensus channel: `Unmarshal`, `Unwrap`, `MsgFromProto`. There is no
message if the first two fail. -/
def decodeMsg (wire : Bytes) : Except RuntimeError (Except MsgError (Option Msg)) :=
  match decodeNativeMessage wire with
  | none => .ok (.ok none)
  | some p => (msgFromProto (some p)).map fun result => result.map some

/-- How `Reactor.Receive` begins: conversion, and validation once more. -/
def receiveMsg (p : Body) : Except RuntimeError (Except MsgError Msg) :=
  (msgFromProto (some p)).map fun result => result.bind validated

/-! ### The callback of controller mediation -/

section Callback

open Mediation

/-- The Go type of a message. -/
def msgType : Body → MsgType
  | .newRoundStep _ => .newRoundStep
  | .newValidBlock _ => .newValidBlock
  | .proposal _ => .proposal
  | .proposalPOL _ => .proposalPOL
  | .blockPart _ => .blockPart
  | .vote _ => .vote
  | .hasVote _ => .hasVote
  | .hasProposalBlockPart _ => .hasProposalBlockPart
  | .voteSetMaj23 _ => .voteSetMaj23
  | .voteSetBits _ => .voteSetBits

/-- The messages of state sync, and all others: their types, and which of them are valid. -/
structure Others (S : Type*) where
  typeOf : S → MsgType
  validateMessage : S → Bool

variable {S : Type*}

/-- What mediation asks of native messages. -/
def native (others : Others S) : Native (Body ⊕ S) where
  typeOf := Sum.elim msgType others.typeOf
  msgFromProto := Sum.elim
    (fun p => (Consensus.msgFromProto (some p)).map Except.isOk) fun _ => .ok false
  validateMessage := Sum.elim (fun _ => false) others.validateMessage

end Callback

/-! ### Decoding is total, but for a missing vote -/

theorem convert_eq_error_iff {p : Body} : (∃ e, convert p = .error e) ↔ p = .vote none := by
  constructor
  · rintro ⟨e, h⟩
    cases p with
    | vote pv =>
      cases pv with
      | none => rfl
      | some pv => cases h
    | _ => cases h
  · rintro rfl
    exact ⟨_, rfl⟩

theorem validateBasic_of_validated {msg msg' : Msg} (h : validated msg = .ok msg') :
    msg = msg' ∧ msg'.validateBasic = none := by
  unfold validated at h
  split at h
  · cases h
  · rename_i hnone
    cases h
    exact ⟨rfl, hnone⟩

/-- What `MsgFromProto` returns is valid. -/
theorem validateBasic_of_msgFromProto {p : Body} {msg : Msg}
    (h : msgFromProto (some p) = .ok (.ok msg)) : msg.validateBasic = none := by
  obtain ⟨converted, -, hbind⟩ := ok_of_map h
  obtain ⟨msg', -, hvalid⟩ := ok_of_bind hbind
  exact (validateBasic_of_validated hvalid).2

theorem exists_msgFromProto {p : Body} (hp : p ≠ .vote none) :
    ∃ result, msgFromProto (some p) = .ok result ∧
      ∀ msg, result = .ok msg → msg.validateBasic = none := by
  cases hconv : convert p with
  | error e => exact absurd (convert_eq_error_iff.mp ⟨e, hconv⟩) hp
  | ok converted =>
    have hmsg : msgFromProto (some p) = .ok (converted.bind validated) := by
      show (convert p).map _ = _
      rw [hconv]
      rfl
    refine ⟨_, hmsg, fun msg hok => validateBasic_of_msgFromProto (p := p) ?_⟩
    rw [hmsg, hok]

section Callback

open Mediation

variable {S : Type*}

/-- A message of consensus is validated by `MsgFromProto`. -/
theorem native_validateSelectedMessage (others : Others S) (p : Body) :
    (native others).validateSelectedMessage (.inl p) =
      (msgFromProto (some p)).map Except.isOk := by
  cases p <;> rfl

theorem native_validateSelectedMessage_eq_error_iff (others : Others S) (p : Body) :
    (∃ e, (native others).validateSelectedMessage (.inl p) = .error e) ↔ p = .vote none := by
  rw [native_validateSelectedMessage]
  constructor
  · rintro ⟨e, h⟩
    by_contra hp
    obtain ⟨result, hresult, -⟩ := exists_msgFromProto hp
    rw [hresult] at h
    cases h
  · rintro rfl
    exact ⟨_, rfl⟩

/-- When the handler is left without an answer. -/
theorem checkPayload_aborted_iff {m : Service (Body ⊕ S)} {others : Others S}
    (hm : m.native = native others) {outer : ControllerMessage} {payload : AdapterPayload}
    (hpayload : decodeAdapterPayload outer.Data = .ok payload)
    (hdecode : m.registry.decode payload.ChannelID payload.Wrapped =
      (decodeNativeMessage payload.Wrapped).map .inl) :
    m.checkPayload outer = .error .aborted ↔
      decodeNativeMessage payload.Wrapped = some (.vote none) ∧ outer.Typ = ascii "Vote" ∧
        payload.ChannelID = voteChannel ∧ ∃ capacity,
          m.registry.receiveCapacity payload.ChannelID = some capacity ∧
            payload.Wrapped.length ≤ capacity := by
  unfold Service.checkPayload
  rw [hpayload, hm]
  dsimp only
  rw [hdecode]
  constructor
  · intro h
    repeat' split at h
    all_goals cases h
    rename_i capacity hcapacity _ hlen _ decoded hdecoded hbinding _ e hvalid
    obtain ⟨p, hp, rfl⟩ := Option.map_eq_some_iff.mp hdecoded
    obtain rfl := (native_validateSelectedMessage_eq_error_iff others p).mp ⟨e, hvalid⟩
    obtain ⟨htype, hchannel⟩ := Prod.mk.inj (Option.some.inj (not_not.mp hbinding))
    exact ⟨hp, htype.symm, hchannel.symm, capacity, hcapacity, not_lt.mp hlen⟩
  · rintro ⟨hp, htype, hchannel, capacity, hcapacity, hlen⟩
    have hvote : selectedMessageBinding ((native others).typeOf (.inl (.vote none))) =
        some (ascii "Vote", voteChannel) := rfl
    have hroute : selectedRoute voteChannel = true := rfl
    rw [hcapacity, hp, hchannel, htype]
    simp only [hroute, if_neg (not_lt.mpr hlen), Bool.not_true, Bool.false_eq_true, if_false,
      Option.map_some, hvote, ne_eq, not_true_eq_false]
    rfl

/-- **Decoding is total, but for a missing vote.** Whatever the bytes are, they decode to a message
that passes `ValidateBasic`, or are rejected, on the way to the Reactor and at the start of its
`Receive`, exactly if they are not a `Vote` message without a vote. Behind the callback of mediation
such bytes leave the handler without an answer whenever they come as a `Vote` on the vote channel,
and nothing else does. -/
theorem decoding_total (others : Others S) (wire : Bytes) :
    ((∃ result, decodeMsg wire = .ok result ∧
      ∀ msg, result = .ok (some msg) → msg.validateBasic = none) ↔
        decodeNativeMessage wire ≠ some (.vote none)) ∧
    ((∀ p, decodeNativeMessage wire = some p → ∃ result, receiveMsg p = .ok result) ↔
      decodeNativeMessage wire ≠ some (.vote none)) ∧
    (∀ (m : Service (Body ⊕ S)) (outer : ControllerMessage) (payload : AdapterPayload),
      m.native = native others → decodeAdapterPayload outer.Data = .ok payload →
      payload.Wrapped = wire →
      m.registry.decode payload.ChannelID wire = (decodeNativeMessage wire).map .inl →
      (m.checkPayload outer = .error .aborted ↔
        decodeNativeMessage wire = some (.vote none) ∧ outer.Typ = ascii "Vote" ∧
          payload.ChannelID = voteChannel ∧ ∃ capacity,
            m.registry.receiveCapacity payload.ChannelID = some capacity ∧
              wire.length ≤ capacity)) := by
  refine ⟨⟨?_, fun hvote => ?_⟩, ⟨fun htotal hnone => ?_, fun hvote p hp => ?_⟩, ?_⟩
  · rintro ⟨result, hresult, -⟩ hnone
    rw [decodeMsg, hnone] at hresult
    cases hresult
  · unfold decodeMsg
    cases hdecode : decodeNativeMessage wire with
    | none => exact ⟨_, rfl, nofun⟩
    | some p =>
      obtain ⟨result, hresult, hvalid⟩ := exists_msgFromProto fun hp =>
        hvote (hdecode.trans (congrArg some hp))
      refine ⟨result.map some, by dsimp only; rw [hresult]; rfl, fun msg hmsg => ?_⟩
      obtain ⟨msg', hmsg', hsome⟩ := ok_of_map hmsg
      cases hsome
      exact hvalid msg hmsg'
  · obtain ⟨result, hresult⟩ := htotal _ hnone
    cases hresult
  · obtain ⟨result, hresult, -⟩ := exists_msgFromProto fun heq =>
      hvote (hp.trans (congrArg some heq))
    exact ⟨_, by rw [receiveMsg, hresult]; rfl⟩
  · rintro m outer payload hm hpayload rfl hregistry
    exact checkPayload_aborted_iff hm hpayload hregistry

/-- A `Vote` message without a vote. -/
def voteless : Bytes := [0x32, 0x00]

/-- The vote channel of a node, where nothing but consensus messages are sent. -/
def voteRoutes : NativeRouteRegistry (Body ⊕ Empty) := fun c =>
  if c = voteChannel then
    some ⟨1048576, fun wire => (decodeNativeMessage wire).map .inl, true⟩
  else none

def noOthers : Others Empty := ⟨nofun, nofun⟩

def voteService : Service (Body ⊕ Empty) where
  limits := ⟨0, 0, 0, 0, 0, 0, 0⟩
  localID := []
  registry := voteRoutes
  native := native noOthers
  decodeControllerMessage := fun _ => none
  limitFirst := fun _ => false

/-- What the controller sends to deliver some bytes on the vote channel. -/
def delivery (wire : Bytes) : ControllerMessage :=
  ⟨[], [], 1 :: voteChannel :: putUint32 wire.length ++ wire, ascii "Vote", []⟩

/-- **Two bytes stop the handler**: they decode to a vote message without a vote, and the
conversion dereferences it, in `Receive` as well. -/
theorem decoding_panics :
    decodeNativeMessage voteless = some (.vote none) ∧
      decodeMsg voteless = .error .nilDereference ∧
      receiveMsg (.vote none) = .error .nilDereference ∧
      voteService.checkPayload (delivery voteless) = .error .aborted := by
  decide +kernel

/-- A precommit for nothing, of height one. -/
def nilPrecommit : Bytes :=
  [0x32, 0x20, 0x0a, 0x1e, 0x08, 0x02, 0x10, 0x01, 0x32, 0x14] ++ List.replicate 20 7 ++
    [0x42, 0x02, 9, 9]

/-- A vote that is there passes all three. -/
theorem decoding_total_vote :
    (∃ result, decodeMsg nilPrecommit = .ok result) ∧
      voteService.checkPayload (delivery nilPrecommit) ≠ .error .aborted := by
  have hvote : decodeNativeMessage nilPrecommit ≠ some (.vote none) := by decide +kernel
  obtain ⟨hdecode, -, hserve⟩ := decoding_total noOthers nilPrecommit
  obtain ⟨result, hresult, -⟩ := hdecode.mpr hvote
  refine ⟨⟨result, hresult⟩, fun haborted => hvote ?_⟩
  exact ((hserve voteService (delivery nilPrecommit) ⟨1, voteChannel, nilPrecommit⟩ rfl
    (by decide +kernel) rfl rfl).mp haborted).1

end Callback

end CometBFT.Consensus
