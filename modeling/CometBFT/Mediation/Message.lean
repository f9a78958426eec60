import CometBFT.Lib.Except
import CometBFT.Lib.Int64

/-!
# Messages of controller mediation

The data that `node/controller_mediation.go` passes around, and its pure checks: which native
message types are selected and on which channel, the six-byte adapter header around a native
payload, and the identities and message IDs that travel with it.

A Go `string` or `[]byte` is a list of bytes. The native protobuf messages themselves stay a type
parameter `P`; all that mediation ever asks of one is its Go type and whether it validates, and
these questions are the fields of `Native`.

## Main definitions

* `MsgType`, `selectedMessageBinding`, `selectedRoute` — what is mediated
* `encodeAdapterPayload`, `decodeAdapterPayload` — the adapter framing
* `messageID`, `validateControllerID`, `validateControllerMessageID` — identities
* `Limits`, `NativeRouteRegistry`, `Native` — what the service is constructed with
-/

namespace CometBFT

/-- The bytes of an ASCII literal. -/
def ascii (s : String) : Bytes := s.toList.map fun c => UInt8.ofNat c.toNat

namespace Mediation

/-- `p2p.ID`. -/
abbrev ID := Bytes

/-! ### Channels and message types -/

def stateChannel : UInt8 := 0x20
def dataChannel : UInt8 := 0x21
def voteChannel : UInt8 := 0x22
def voteSetBitsChannel : UInt8 := 0x23
def snapshotChannel : UInt8 := 0x60
def chunkChannel : UInt8 := 0x61

/-- `selectedControllerRoutes`. -/
def selectedControllerRoutes : List UInt8 :=
  [stateChannel, dataChannel, voteChannel, voteSetBitsChannel, snapshotChannel, chunkChannel]

/-- The Go type of a `proto.Message`, as far as the type switches of mediation tell them apart. -/
inductive MsgType where
  | newRoundStep | newValidBlock | hasVote | hasProposalBlockPart | voteSetMaj23
  | proposal | proposalPOL | blockPart | vote | voteSetBits
  | snapshotsRequest | snapshotsResponse | chunkRequest | chunkResponse
  | unselected
  deriving DecidableEq, Repr

/-- `selectedMessageBinding`: label and route of a selected type. -/
def selectedMessageBinding : MsgType → Option (Bytes × UInt8)
  | .newRoundStep => some (ascii "NewRoundStep", stateChannel)
  | .newValidBlock => some (ascii "NewValidBlock", stateChannel)
  | .hasVote => some (ascii "HasVote", stateChannel)
  | .hasProposalBlockPart => some (ascii "HasProposalBlockPart", stateChannel)
  | .voteSetMaj23 => some (ascii "VoteSetMaj23", stateChannel)
  | .proposal => some (ascii "Proposal", dataChannel)
  | .proposalPOL => some (ascii "ProposalPOL", dataChannel)
  | .blockPart => some (ascii "BlockPart", dataChannel)
  | .vote => some (ascii "Vote", voteChannel)
  | .voteSetBits => some (ascii "VoteSetBits", voteSetBitsChannel)
  | .snapshotsRequest => some (ascii "SnapshotsRequest", snapshotChannel)
  | .snapshotsResponse => some (ascii "SnapshotsResponse", snapshotChannel)
  | .chunkRequest => some (ascii "ChunkRequest", chunkChannel)
  | .chunkResponse => some (ascii "ChunkResponse", chunkChannel)
  | .unselected => none

/-- `Selected`. The channel is ignored, as in the source. -/
def selected (_channelID : UInt8) (t : MsgType) : Bool := (selectedMessageBinding t).isSome

/-- `SelectedRoute`. -/
def selectedRoute (channelID : UInt8) : Bool := selectedControllerRoutes.contains channelID

/-- A selected type is bound to a selected route, so nothing selected on the way out can miss the
filter on the way in. -/
theorem selectedRoute_of_binding {t : MsgType} {label : Bytes} {route : UInt8}
    (h : selectedMessageBinding t = some (label, route)) : selectedRoute route = true := by
  cases t <;> simp only [selectedMessageBinding, Option.some.injEq, Prod.mk.injEq,
    reduceCtorEq] at h <;> obtain ⟨-, rfl⟩ := h <;> decide

/-! ### Outer messages -/

/-- `controllerMessage`. -/
structure ControllerMessage where
  From : ID
  To : ID
  Data : Bytes
  Typ : Bytes
  ID : Bytes
  deriving DecidableEq, Repr

/-- `outboundMediationItem`. -/
structure OutboundItem where
  message : ControllerMessage
  bytes : ℤ
  deriving DecidableEq, Repr

/-- `reinjectionItem`. -/
structure ReinjectionItem where
  message : ControllerMessage
  channelID : UInt8
  wrapped : Bytes
  bytes : ℤ
  deriving DecidableEq, Repr

/-! ### The adapter frame -/

def controllerAdapterVersion : UInt8 := 1
def controllerAdapterHeader : ℕ := 6

/-- `binary.BigEndian.PutUint32`. -/
def putUint32 (n : ℕ) : Bytes :=
  [UInt8.ofNat (n / 2 ^ 24), UInt8.ofNat (n / 2 ^ 16), UInt8.ofNat (n / 2 ^ 8), UInt8.ofNat n]

/-- `binary.BigEndian.Uint32` of the four bytes at the head. -/
def uint32 : Bytes → ℕ
  | a :: b :: c :: d :: _ => a.toNat * 2 ^ 24 + b.toNat * 2 ^ 16 + c.toNat * 2 ^ 8 + d.toNat
  | _ => 0

inductive AdapterError where
  | lengthField | truncated | version (v : UInt8) | lengthMismatch
  deriving DecidableEq, Repr

/-- `encodeAdapterPayload`. -/
def encodeAdapterPayload (channelID : UInt8) (wrapped : Bytes) : Except AdapterError Bytes :=
  if wrapped.length > 2 ^ 32 - 1 then .error .lengthField
  else .ok (controllerAdapterVersion :: channelID :: putUint32 wrapped.length ++ wrapped)

/-- `adapterPayload`. -/
structure AdapterPayload where
  Version : UInt8
  ChannelID : UInt8
  Wrapped : Bytes
  deriving DecidableEq, Repr

/-- `decodeAdapterPayload`. -/
def decodeAdapterPayload (data : Bytes) : Except AdapterError AdapterPayload :=
  match data with
  | version :: channelID :: rest =>
    if rest.length + 2 < controllerAdapterHeader then .error .truncated
    else if version ≠ controllerAdapterVersion then .error (.version version)
    else if uint32 rest ≠ rest.length + 2 - controllerAdapterHeader then .error .lengthMismatch
    else .ok ⟨version, channelID, rest.drop 4⟩
  | _ => .error .truncated

/-! ### Identities -/

/-- `strconv`-style decimal digits, most significant first, as `%d` prints a `uint64`. -/
def decimal (n : ℕ) : Bytes :=
  if n = 0 then [48] else (Nat.digits 10 n).reverse.map fun d => UInt8.ofNat (48 + d)

/-- `fmt.Sprintf("%s_%s_%d", localID, destination, next)`. -/
def messageID (localID destination : ID) (next : ℕ) : Bytes :=
  localID ++ ascii "_" ++ destination ++ ascii "_" ++ decimal next

def isDigit (b : UInt8) : Bool := 48 ≤ b && b ≤ 57

def isHex (b : UInt8) : Bool :=
  isDigit b || (97 ≤ b && b ≤ 102) || (65 ≤ b && b ≤ 70)

/-- `validateControllerID`: forty hexadecimal characters. -/
def validateControllerID (value : Bytes) : Bool := value.length == 40 && value.all isHex

/-- The value of a string of decimal digits. -/
def digitsValue (s : Bytes) : ℕ := s.foldl (fun n b => n * 10 + (b.toNat - 48)) 0

/-- `strconv.ParseUint(s, 10, 64)`. -/
def parseUint (s : Bytes) : Option ℕ :=
  if s ≠ [] ∧ s.all isDigit ∧ digitsValue s < 2 ^ 64 then some (digitsValue s) else none

def controllerIDMaxBytes : ℕ := 128

/-- `validateControllerMessageID`. -/
def validateControllerMessageID (m : ControllerMessage) : Bool :=
  let head := m.From ++ ascii "_" ++ m.To ++ ascii "_"
  m.ID ≠ [] && m.ID.length ≤ controllerIDMaxBytes && head.isPrefixOf m.ID &&
    m.ID.drop head.length ≠ [] && (parseUint (m.ID.drop head.length)).isSome

/-! ### What the service is built with -/

/-- The limits of `ControllerMediationConfig` that the running service reads, none of which is
negative once `ValidateBasic` has let them pass. Timeouts are absent: a timer may fire at any
moment. -/
structure Limits where
  outboundQueueCapacity : ℕ
  outboundQueueBytes : ℕ
  callbackQueueCapacity : ℕ
  callbackQueueBytes : ℕ
  callbackMaxBodyBytes : ℕ
  counterRegistryCapacity : ℕ
  registrationAttempts : ℕ

/-- `NativeRoute`: the receive limit of a channel, the codec its prototype selects, and whether a
Reactor is attached. -/
structure NativeRoute (P : Type*) where
  receiveCapacity : ℕ
  decode : Bytes → Option P
  hasReactor : Bool

/-- `NativeRouteRegistry`, frozen before the service starts. -/
def NativeRouteRegistry (P : Type*) := UInt8 → Option (NativeRoute P)

variable {P : Type*}

/-- `ReceiveCapacity`. -/
def NativeRouteRegistry.receiveCapacity (r : NativeRouteRegistry P) (channelID : UInt8) :
    Option ℕ := (r channelID).map (·.receiveCapacity)

/-- `Decode`. -/
def NativeRouteRegistry.decode (r : NativeRouteRegistry P) (channelID : UInt8) (wrapped : Bytes) :
    Option P := (r channelID).bind fun route => route.decode wrapped

/-- What mediation asks of a native message: its Go type, and the two validators. -/
structure Native (P : Type*) where
  typeOf : P → MsgType
  /-- `cs.MsgFromProto` returned no error, unless it panicked. -/
  msgFromProto : P → Except RuntimeError Bool
  /-- `statesync.ValidateMessage` returned no error. -/
  validateMessage : P → Bool

/-- `validateSelectedMessage`. -/
def Native.validateSelectedMessage (nat : Native P) (m : P) : Except RuntimeError Bool :=
  match nat.typeOf m with
  | .newRoundStep | .newValidBlock | .hasVote | .hasProposalBlockPart | .voteSetMaj23
  | .proposal | .proposalPOL | .blockPart | .vote | .voteSetBits => nat.msgFromProto m
  | .snapshotsRequest | .snapshotsResponse | .chunkRequest | .chunkResponse =>
    .ok (nat.validateMessage m)
  | .unselected => .ok false

end Mediation

end CometBFT
