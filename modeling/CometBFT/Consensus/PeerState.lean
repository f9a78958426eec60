import CometBFT.Consensus.Msgs

/-!
# What a node knows of a peer

The model of `PeerState` in `internal/consensus/reactor.go`: the round state that a peer is believed to
be in, with a bit array for each set of votes and for the parts of a block, and everything that the
Reactor does with it, when a message arrives and in the routines that gossip block parts and votes.

The fields of a `PeerRoundState` are pointers, and two of them can point to the same array: a catch-up
commit *is* the precommits of its round. So the arrays stand in a list, and a pointer is a place in it.
`GetRoundState` copies the pointers and not the arrays; the gossip routines work on such copies while
messages change the arrays behind them.

What the node itself has (its votes, its part set, its block store) is a parameter of each event.

## Main results

* `Gossip.bitArrays_sound` — if the bit arrays that the peer sends have the words that their bits need, no
  event panics
* `Gossip.bitArrays_panic` — a peer that sends one bit and no word for it
-/

namespace CometBFT.Consensus

open CometBFT.Types Bits Cmtcons List Mediation

/-- A `*BitArray` that is not nil. -/
abbrev Ref := ℕ

/-- `PeerRoundState`, but for the start time. -/
structure PeerRoundState where
  height : ℤ := 0
  round : ℤ := -1
  step : UInt8 := 0
  proposal : Bool := false
  proposalBlockPartSetHeader : PartSetHeader := {}
  proposalBlockParts : Option Ref := none
  proposalPOLRound : ℤ := -1
  proposalPOL : Option Ref := none
  prevotes : Option Ref := none
  precommits : Option Ref := none
  lastCommitRound : ℤ := -1
  lastCommit : Option Ref := none
  catchupCommitRound : ℤ := -1
  catchupCommit : Option Ref := none
deriving DecidableEq, Repr

/-- A `PeerState`, as `NewPeerState` makes it. -/
structure PeerState where
  prs : PeerRoundState := {}
  arrays : List BitArray := []
deriving DecidableEq, Repr

/-- What `types.VoteSetReader` offers: a vote set of the node, or a commit. Its bit array was made by
`NewBitArray`, and its votes have been verified. -/
structure VoteSetReader where
  height : ℤ
  round : ℤ
  type : SignedMsgType
  size : ℤ
  bitArray : Option BitArray
  getByIndex : ℕ → Option Types.Vote
  isCommit : Bool
  nonempty : ∀ bA, bitArray = some bA → bA.Nonempty
  index_nonneg : ∀ i vote, getByIndex i = some vote → 0 ≤ vote.validatorIndex

namespace PeerState

variable (ps : PeerState)

/-! ### Arrays behind pointers -/

def deref (r : Option Ref) : Option BitArray := r.bind fun r => ps.arrays[r]?

/-- Point to an array that was received. -/
def point (bA : BitArray) (set : PeerRoundState → Option Ref → PeerRoundState) :
    PeerState :=
  ⟨set ps.prs (some ps.arrays.length), ps.arrays ++ [bA]⟩

/-- Point to a `NewBitArray`. -/
def pointNew (bits : ℤ) (set : PeerRoundState → Option Ref → PeerRoundState) :
    PeerState :=
  match newBitArray bits with
  | none => { ps with prs := set ps.prs none }
  | some bA => ps.point bA set

/-- Change the array behind a pointer; nothing happens to nil. -/
def modify (r : Option Ref) (f : BitArray → Except RuntimeError BitArray) :
    Except RuntimeError PeerState :=
  match r with
  | none => .ok ps
  | some r =>
    match ps.arrays[r]? with
    | none => .ok ps
    | some bA => (f bA).map fun bA => { ps with arrays := ps.arrays.set r bA }

/-! ### Proposals and block parts -/

def setHasProposal (proposal : Types.Proposal) : PeerState :=
  if ps.prs.height ≠ proposal.height ∨ ps.prs.round ≠ proposal.round then ps
  else if ps.prs.proposal then ps
  else if ps.prs.proposalBlockParts.isSome then { ps with prs := { ps.prs with proposal := true } }
  else ps.pointNew proposal.blockID.partSetHeader.total.toNat fun prs r =>
    { prs with
      proposal := true
      proposalBlockPartSetHeader := proposal.blockID.partSetHeader
      proposalBlockParts := r
      proposalPOLRound := proposal.polRound
      proposalPOL := none }

def initProposalBlockParts (partSetHeader : PartSetHeader) : PeerState :=
  if ps.prs.proposalBlockParts.isSome then ps
  else ps.pointNew partSetHeader.total.toNat fun prs r =>
    { prs with proposalBlockPartSetHeader := partSetHeader, proposalBlockParts := r }

def setHasProposalBlockPart (height round index : ℤ) :
    Except RuntimeError PeerState :=
  if ps.prs.height ≠ height ∨ ps.prs.round ≠ round then .ok ps
  else ps.modify ps.prs.proposalBlockParts (·.setIndex index true)

/-! ### Votes -/

def getVoteBitArray (prs : PeerRoundState) (height round : ℤ) (votesType : SignedMsgType) :
    Option Ref :=
  if !votesType.isVoteTypeValid then none
  else if prs.height = height then
    if prs.round = round then
      if votesType = .prevote then prs.prevotes else prs.precommits
    else if prs.catchupCommitRound = round then
      if votesType = .prevote then none else prs.catchupCommit
    else if prs.proposalPOLRound = round then
      if votesType = .prevote then prs.proposalPOL else none
    else none
  else if prs.height = wrap64 (height + 1) then
    if prs.lastCommitRound = round then
      if votesType = .prevote then none else prs.lastCommit
    else none
  else none

def ensureCatchupCommitRound (height round numValidators : ℤ) : PeerState :=
  if ps.prs.height ≠ height then ps
  else if ps.prs.catchupCommitRound = round then ps
  else if round = ps.prs.round then
    { ps with prs :=
      { ps.prs with catchupCommitRound := round, catchupCommit := ps.prs.precommits } }
  else ps.pointNew numValidators fun prs r =>
    { prs with catchupCommitRound := round, catchupCommit := r }

/-- `if ps.PRS.X == nil { ps.PRS.X = bits.NewBitArray(numValidators) }`. -/
def ensure (numValidators : ℤ) (field : PeerRoundState → Option Ref)
    (set : PeerRoundState → Option Ref → PeerRoundState) : PeerState :=
  if (field ps.prs).isSome then ps else ps.pointNew numValidators set

def ensureVoteBitArrays (height numValidators : ℤ) : PeerState :=
  if ps.prs.height = height then
    let ps := ps.ensure numValidators (·.prevotes) fun prs r => { prs with prevotes := r }
    let ps := ps.ensure numValidators (·.precommits) fun prs r => { prs with precommits := r }
    let ps := ps.ensure numValidators (·.catchupCommit) fun prs r => { prs with catchupCommit := r }
    ps.ensure numValidators (·.proposalPOL) fun prs r => { prs with proposalPOL := r }
  else if ps.prs.height = wrap64 (height + 1) then
    ps.ensure numValidators (·.lastCommit) fun prs r => { prs with lastCommit := r }
  else ps

def setHasVote (height round : ℤ) (voteType : SignedMsgType) (index : ℤ) :
    Except RuntimeError PeerState :=
  ps.modify (getVoteBitArray ps.prs height round voteType) (·.setIndex index true)

def setHasVoteFromPeer (vote : Types.Vote) (csHeight valSize lastCommitSize : ℤ) :
    Except RuntimeError PeerState :=
  let ps := ps.ensureVoteBitArrays csHeight valSize
  let ps := ps.ensureVoteBitArrays (wrap64 (csHeight - 1)) lastCommitSize
  ps.setHasVote vote.height vote.round vote.type vote.validatorIndex

/-- What `PickVoteToSend` allocates before it looks at the votes of the peer. -/
def ensureFor (votes : VoteSetReader) : PeerState :=
  let ps := if votes.isCommit then ps.ensureCatchupCommitRound votes.height votes.round votes.size
    else ps
  ps.ensureVoteBitArrays votes.height votes.size

def pickVoteToSend (votes : VoteSetReader) (r : ℕ) :
    Except RuntimeError (PeerState × Option Types.Vote) :=
  if votes.size = 0 then .ok (ps, none)
  else
    let ps := ps.ensureFor votes
    match ps.deref (getVoteBitArray ps.prs votes.height votes.round votes.type) with
    | none => .ok (ps, none)
    | some psVotes => do
      let c ← BitArray.sub votes.bitArray (some psVotes)
      let index ← pickRandom r c
      return (ps, index.bind votes.getByIndex)

/-! ### Messages -/

def compareHRS (h₁ r₁ : ℤ) (s₁ : UInt8) (h₂ r₂ : ℤ) (s₂ : UInt8) : Ordering :=
  (compare h₁ h₂).then ((compare r₁ r₂).then (compare s₁ s₂))

/-- The fields that a new round resets. -/
def newRound (prs : PeerRoundState) : PeerRoundState :=
  { prs with
    proposal := false
    proposalBlockPartSetHeader := {}
    proposalBlockParts := none
    proposalPOLRound := -1
    proposalPOL := none
    prevotes := none
    precommits := none }

def applyNewRoundStepMessage (msg : NewRoundStepMessage) : PeerState :=
  let old := ps.prs
  if compareHRS msg.height msg.round msg.step old.height old.round old.step ≠ .gt then ps
  else
    let prs := { old with height := msg.height, round := msg.round, step := msg.step }
    let prs := if old.height ≠ msg.height ∨ old.round ≠ msg.round then newRound prs else prs
    let prs :=
      if old.height = msg.height ∧ old.round ≠ msg.round ∧ msg.round = old.catchupCommitRound then
        { prs with precommits := old.catchupCommit }
      else prs
    let prs :=
      if old.height ≠ msg.height then
        { prs with
          lastCommitRound := msg.lastCommitRound
          -- shift precommits to the last commit
          lastCommit :=
            if wrap64 (old.height + 1) = msg.height ∧ old.round = msg.lastCommitRound then
              old.precommits
            else none
          catchupCommitRound := -1
          catchupCommit := none }
      else prs
    { ps with prs }

def applyNewValidBlockMessage (msg : NewValidBlockMessage) : PeerState :=
  if ps.prs.height ≠ msg.height then ps
  else if ps.prs.round ≠ msg.round ∧ !msg.isCommit then ps
  else ps.point msg.blockParts fun prs r =>
    { prs with proposalBlockPartSetHeader := msg.blockPartSetHeader, proposalBlockParts := r }

def applyProposalPOLMessage (msg : ProposalPOLMessage) : PeerState :=
  if ps.prs.height ≠ msg.height then ps
  else if ps.prs.proposalPOLRound ≠ msg.proposalPOLRound then ps
  else ps.point msg.proposalPOL fun prs r => { prs with proposalPOL := r }

def applyHasVoteMessage (msg : HasVoteMessage) : Except RuntimeError PeerState :=
  if ps.prs.height ≠ msg.height then .ok ps
  else ps.setHasVote msg.height msg.round msg.type msg.index

def applyHasProposalBlockPartMessage (msg : HasProposalBlockPartMessage) :
    Except RuntimeError PeerState :=
  if ps.prs.height ≠ msg.height then .ok ps
  else ps.setHasProposalBlockPart msg.height msg.round msg.index

/-- The votes of a peer after it has told which it has; `ourVotes` are those that we have as well. -/
def hasVotes (ourVotes : Option BitArray) (msgVotes votes : BitArray) :
    Except RuntimeError BitArray :=
  match ourVotes with
  | none => .ok (votes.update msgVotes)
  | some ours => do
    let otherVotes ← BitArray.sub (some votes) (some ours)
    let claimed ← BitArray.or otherVotes (some msgVotes)
    return match claimed with
      | none => votes
      | some claimed => votes.update claimed

def applyVoteSetBitsMessage (msg : VoteSetBitsMessage) (ourVotes : Option BitArray) :
    Except RuntimeError PeerState :=
  ps.modify (getVoteBitArray ps.prs msg.height msg.round msg.type) (hasVotes ourVotes msg.votes)

end PeerState

/-- What the Reactor reads of the node when a message arrives. -/
structure ReceiveView where
  initialHeight : ℤ
  waitSync : Bool
  height : ℤ
  valSize : ℤ
  lastCommitSize : ℤ
  /-- the votes of the node for the block, in the round and of the type that a message names -/
  ourVotes : VoteSetBitsMessage → Option BitArray
  nonempty : ∀ msg bA, ourVotes msg = some bA → bA.Nonempty

namespace PeerState

/-- What `Reactor.Receive` does to the peer state. A message on a channel of another kind is ignored;
`VoteSetMaj23` is answered, and nothing is recorded. -/
def receive (ps : PeerState) (view : ReceiveView) (channelID : UInt8) (msg : Msg) :
    Except RuntimeError PeerState :=
  if channelID = stateChannel then
    match msg with
    | .newRoundStep msg =>
      .ok (if msg.validateHeight view.initialHeight then ps.applyNewRoundStepMessage msg else ps)
    | .newValidBlock msg => .ok (ps.applyNewValidBlockMessage msg)
    | .hasVote msg => ps.applyHasVoteMessage msg
    | .hasProposalBlockPart msg => ps.applyHasProposalBlockPartMessage msg
    | _ => .ok ps
  else if view.waitSync then .ok ps
  else if channelID = dataChannel then
    match msg with
    | .proposal proposal => .ok (ps.setHasProposal proposal)
    | .proposalPOL msg => .ok (ps.applyProposalPOLMessage msg)
    | .blockPart msg => ps.setHasProposalBlockPart msg.height msg.round msg.part.index.toNat
    | _ => .ok ps
  else if channelID = voteChannel then
    match msg with
    | .vote vote => ps.setHasVoteFromPeer vote view.height view.valSize view.lastCommitSize
    | _ => .ok ps
  else if channelID = voteSetBitsChannel then
    match msg with
    | .voteSetBits msg =>
      ps.applyVoteSetBitsMessage msg (if view.height = msg.height then view.ourVotes msg else none)
    | _ => .ok ps
  else .ok ps

end PeerState

/-! ### Gossip -/

/-- What the routine that gossips block parts reads of the node. -/
structure DataView where
  height : ℤ
  /-- header and bit array of `rs.ProposalBlockParts` -/
  proposalBlockParts : Option (PartSetHeader × Option BitArray)
  blockStoreBase : ℤ
  loadBlockMeta : ℤ → Option BlockID
  loadBlockPart : ℤ → ℕ → Option Part
  nonempty : ∀ header bA, proposalBlockParts = some (header, some bA) → bA.Nonempty

namespace PeerState

variable (ps : PeerState) (prs : PeerRoundState) (view : DataView) (r : ℕ)

/-- The part of a stored block that is sent to a peer that lags behind. -/
def pickPartForCatchup : Except RuntimeError (Option Part) := do
  let index ← pickRandom r ((ps.deref prs.proposalBlockParts).map BitArray.not)
  return index.bind fun index =>
    if (view.loadBlockMeta prs.height).map (·.partSetHeader) = some prs.proposalBlockPartSetHeader then
      view.loadBlockPart prs.height index
    else none

/-- The index of a part that we have and the peer has not, if the headers are the same. -/
def pickOwnPart : Except RuntimeError (Option ℕ) :=
  match view.proposalBlockParts with
  | none => .ok none
  | some (header, parts) =>
    if header = prs.proposalBlockPartSetHeader then do
      let c ← BitArray.sub parts (ps.deref prs.proposalBlockParts)
      pickRandom r c
    else .ok none

/-- The second half of `pickPartToSend`, for a peer on a height that we have. -/
def pickStoredPart : Except RuntimeError PeerState :=
  if view.blockStoreBase > 0 ∧ 0 < prs.height ∧ prs.height < view.height ∧
      prs.height ≥ view.blockStoreBase then
    match prs.proposalBlockParts with
    | none => .ok (match view.loadBlockMeta prs.height with
      | none => ps
      | some blockID => ps.initProposalBlockParts blockID.partSetHeader)
    | some _ => (ps.pickPartForCatchup prs view r).map fun _ => ps
  else .ok ps

/-- `pickPartToSend` on a copy of the round state. Which part is found is up to `sentPart`. -/
def pickPartToSend : Except RuntimeError PeerState := do
  let own ← ps.pickOwnPart prs view r
  if own.isSome then return ps else ps.pickStoredPart prs view r

end PeerState

/-- A peer state, with the copies of the round state that the gossip routines have made, and the
votes that they have picked. -/
structure Gossip where
  ps : PeerState := {}
  copies : List PeerRoundState := []
  picked : List Types.Vote := []

namespace Gossip

inductive Event where
  | receive (channelID : UInt8) (p : Body) (view : ReceiveView)
  | getRoundState
  | pickPartToSend (copy : ℕ) (view : DataView) (r : ℕ)
  /-- a part was sent, `SendPartSetHasPart` -/
  | sentPart (copy : ℕ) (index : UInt32)
  /-- a proposal was sent, `SendProposalSetHasProposal` -/
  | sentProposal (proposal : Types.Proposal)
  | pickVoteToSend (votes : VoteSetReader) (r : ℕ)
  /-- a vote was sent, `sendVoteSetHasVote` -/
  | sentVote (vote : ℕ)

/-- One event; those of the gossip routines name a copy or a vote that was picked before. -/
def step (g : Gossip) : Event → Except RuntimeError Gossip
  | .receive channelID p view => do
    match ← receiveMsg p with
    | .error _ => return g
    | .ok msg => return { g with ps := ← g.ps.receive view channelID msg }
  | .getRoundState => .ok { g with copies := g.copies ++ [g.ps.prs] }
  | .pickPartToSend copy view r =>
    match g.copies[copy]? with
    | none => .ok g
    | some prs => (g.ps.pickPartToSend prs view r).map fun ps => { g with ps }
  | .sentPart copy index =>
    match g.copies[copy]? with
    | none => .ok g
    | some prs => (g.ps.setHasProposalBlockPart prs.height prs.round index.toNat).map fun ps =>
      { g with ps }
  | .sentProposal proposal => .ok { g with ps := g.ps.setHasProposal proposal }
  | .pickVoteToSend votes r => (g.ps.pickVoteToSend votes r).map fun (ps, vote) =>
    { g with ps, picked := g.picked ++ vote.toList }
  | .sentVote i =>
    match g.picked[i]? with
    | none => .ok g
    | some vote => (g.ps.setHasVote vote.height vote.round vote.type vote.validatorIndex).map fun ps =>
      { g with ps }

def next (g : Gossip) (e : Event) : Option Gossip := (g.step e).toOption

end Gossip

/-! ### Sound arrays -/

namespace PeerState

/-- Every array has at least one bit, and the words that its bits need. -/
def Sound (ps : PeerState) : Prop := ∀ bA ∈ ps.arrays, bA.Nonempty

variable {ps : PeerState} {set : PeerRoundState → Option Ref → PeerRoundState}

section

variable (h : ps.Sound)

include h

theorem Sound.deref {r : Option Ref} {bA : BitArray} (hr : ps.deref r = some bA) : bA.Nonempty := by
  obtain ⟨r, -, hr⟩ := Option.bind_eq_some_iff.mp hr
  exact h bA (mem_of_getElem? hr)

theorem Sound.point {bA : BitArray} (hbA : bA.Nonempty) : (ps.point bA set).Sound := by
  intro bA' hmem
  rcases mem_append.mp hmem with hmem | hmem
  · exact h bA' hmem
  · rw [mem_singleton.mp hmem]
    exact hbA

theorem Sound.pointNew (bits : ℤ) : (ps.pointNew bits set).Sound := by
  unfold PeerState.pointNew
  split
  · exact h
  · rename_i hnew
    exact h.point (BitArray.nonempty_newBitArray hnew)

/-- What does not panic on a sound array, and leaves it sound, can be done behind any pointer. -/
theorem Sound.modify (r : Option Ref) {f : BitArray → Except RuntimeError BitArray}
    (hf : ∀ bA : BitArray, bA.Nonempty → ∃ bA', f bA = .ok bA' ∧ bA'.Nonempty) :
    ∃ ps', ps.modify r f = .ok ps' ∧ ps'.Sound := by
  unfold PeerState.modify
  split
  · exact ⟨ps, rfl, h⟩
  · split
    · exact ⟨ps, rfl, h⟩
    · rename_i bA hget
      obtain ⟨bA', hbA', hne⟩ := hf bA (h bA (mem_of_getElem? hget))
      refine ⟨_, by rw [hbA']; rfl, fun b hb => ?_⟩
      rcases mem_or_eq_of_mem_set hb with hb | rfl
      · exact h b hb
      · exact hne

theorem Sound.setHasProposal (proposal : Types.Proposal) : (ps.setHasProposal proposal).Sound := by
  unfold PeerState.setHasProposal
  split_ifs
  · exact h
  · exact h
  · exact h
  · exact h.pointNew _

theorem Sound.initProposalBlockParts (header : PartSetHeader) :
    (ps.initProposalBlockParts header).Sound := by
  unfold PeerState.initProposalBlockParts
  split_ifs
  · exact h
  · exact h.pointNew _

theorem Sound.setHasProposalBlockPart (height round : ℤ) {index : ℤ} (hindex : 0 ≤ index) :
    ∃ ps', ps.setHasProposalBlockPart height round index = .ok ps' ∧ ps'.Sound := by
  unfold PeerState.setHasProposalBlockPart
  split_ifs
  · exact ⟨ps, rfl, h⟩
  · exact h.modify _ fun bA hbA => hbA.setIndex hindex true

theorem Sound.ensureCatchupCommitRound (height round n : ℤ) :
    (ps.ensureCatchupCommitRound height round n).Sound := by
  unfold PeerState.ensureCatchupCommitRound
  split_ifs
  · exact h
  · exact h
  · exact h
  · exact h.pointNew _

theorem Sound.ensure (n : ℤ) (field : PeerRoundState → Option Ref) :
    (ps.ensure n field set).Sound := by
  unfold PeerState.ensure
  split_ifs
  · exact h
  · exact h.pointNew _

theorem Sound.ensureVoteBitArrays (height n : ℤ) : (ps.ensureVoteBitArrays height n).Sound := by
  unfold PeerState.ensureVoteBitArrays
  split_ifs
  · exact (((h.ensure _ _).ensure _ _).ensure _ _).ensure _ _
  · exact h.ensure _ _
  · exact h

theorem Sound.setHasVote (height round : ℤ) (type : SignedMsgType) {index : ℤ} (hindex : 0 ≤ index) :
    ∃ ps', ps.setHasVote height round type index = .ok ps' ∧ ps'.Sound :=
  h.modify _ fun _ hbA => hbA.setIndex hindex true

theorem Sound.ensureFor (votes : VoteSetReader) : (ps.ensureFor votes).Sound := by
  unfold PeerState.ensureFor
  dsimp only
  split_ifs
  · exact (h.ensureCatchupCommitRound _ _ _).ensureVoteBitArrays _ _
  · exact h.ensureVoteBitArrays _ _

end

/-- The difference of two arrays has the size of the first, so a bit can be picked from it. -/
theorem exists_pick {ours theirs : Option BitArray} (hours : ∀ bA, ours = some bA → bA.Nonempty)
    (htheirs : ∀ bA, theirs = some bA → bA.Nonempty) (r : ℕ) :
    ∃ index, (BitArray.sub ours theirs >>= pickRandom r) = .ok index := by
  cases ours with
  | none => exact ⟨none, rfl⟩
  | some ours =>
    cases theirs with
    | none => exact ⟨none, rfl⟩
    | some theirs =>
      have hne := hours ours rfl
      obtain ⟨c, hc, hbits, hwf⟩ := hne.toWellFormed.sub (htheirs theirs rfl).toWellFormed
      obtain ⟨index, hindex⟩ := BitArray.Nonempty.pickRandom ⟨hwf, hbits ▸ hne.pos⟩ r
      exact ⟨index, by rw [bind_of_ok hc, hindex]⟩

theorem Sound.pickVoteToSend (h : ps.Sound) (votes : VoteSetReader) (r : ℕ) :
    ∃ ps' vote, ps.pickVoteToSend votes r = .ok (ps', vote) ∧ ps'.Sound ∧
      ∀ v, vote = some v → 0 ≤ v.validatorIndex := by
  have hs := h.ensureFor votes
  unfold PeerState.pickVoteToSend
  split
  · exact ⟨ps, none, rfl, h, nofun⟩
  · dsimp only
    split
    · exact ⟨_, none, rfl, hs, nofun⟩
    · rename_i psVotes hderef
      obtain ⟨index, hindex⟩ := exists_pick votes.nonempty
        (fun bA hbA => hs.deref (hderef.trans hbA)) r
      obtain ⟨c, hc, hpick⟩ := ok_of_bind hindex
      refine ⟨_, index.bind votes.getByIndex, by rw [bind_of_ok hc, bind_of_ok hpick]; rfl, hs,
        fun v hv => ?_⟩
      obtain ⟨i, -, hi⟩ := Option.bind_eq_some_iff.mp hv
      exact votes.index_nonneg i v hi

/-! ### Sound messages -/

theorem exists_hasVotes {ourVotes : Option BitArray} (hours : ∀ bA, ourVotes = some bA → bA.Nonempty)
    {msgVotes : BitArray} (hmsg : msgVotes.WellFormed) {votes : BitArray} (hvotes : votes.Nonempty) :
    ∃ votes', hasVotes ourVotes msgVotes votes = .ok votes' ∧ votes'.Nonempty := by
  cases ourVotes with
  | none => exact ⟨_, rfl, hvotes.update _⟩
  | some ours =>
    obtain ⟨other, hother, -, hwf⟩ := hvotes.toWellFormed.sub (hours ours rfl).toWellFormed
    obtain ⟨claimed, hclaimed⟩ := hwf.or hmsg
    exact ⟨votes.update claimed, by rw [hasVotes, bind_of_ok hother, bind_of_ok hclaimed]; rfl,
      hvotes.update _⟩

end PeerState

/-- The bit arrays of a protobuf message have the words that their bits need. -/
def BitsWellFormed : Body → Prop
  | .newValidBlock m => ∀ bA, m.blockParts = some bA → bA.WellFormed
  | .proposalPOL m => m.proposalPol.WellFormed
  | .voteSetBits m => m.votes.WellFormed
  | _ => True

/-- The bit arrays of a native message. -/
def Msg.bitArrays : Msg → List BitArray
  | .newValidBlock m => [m.blockParts]
  | .proposalPOL m => [m.proposalPOL]
  | .voteSetBits m => [m.votes]
  | _ => []

theorem exists_convert_of_msgFromProto {p : Body} {msg : Msg}
    (h : msgFromProto (some p) = .ok (.ok msg)) : convert p = .ok (.ok msg) := by
  obtain ⟨converted, hconv, hbind⟩ := ok_of_map h
  obtain ⟨msg', rfl, hvalid⟩ := ok_of_bind hbind
  rw [hconv, (validateBasic_of_validated hvalid).1]

/-- What is converted keeps its bit arrays. -/
theorem bitArrays_of_msgFromProto {p : Body} {msg : Msg} (hp : BitsWellFormed p)
    (h : msgFromProto (some p) = .ok (.ok msg)) : ∀ bA ∈ msg.bitArrays, bA.WellFormed := by
  have hconv := exists_convert_of_msgFromProto h
  intro bA hmem
  cases p with
  | newRoundStep m =>
    have hconv := Except.ok.inj hconv
    split at hconv
    · cases hconv
    · cases hconv
      cases hmem
  | newValidBlock m =>
    obtain ⟨psh, -, rfl⟩ := ok_of_map (Except.ok.inj hconv)
    obtain rfl := mem_singleton.mp hmem
    show (BitArray.fromProto m.blockParts).WellFormed
    cases hparts : m.blockParts with
    | none => exact ⟨le_rfl, rfl⟩
    | some pb => exact hp pb hparts
  | proposalPOL m =>
    cases hconv
    obtain rfl := mem_singleton.mp hmem
    exact hp
  | vote pv =>
    obtain ⟨vote, -, hvote⟩ := ok_of_map hconv
    obtain ⟨_, -, rfl⟩ := ok_of_map hvote
    cases hmem
  | hasVote m =>
    cases hconv
    cases hmem
  | hasProposalBlockPart m =>
    cases hconv
    cases hmem
  | voteSetBits m =>
    obtain ⟨_, -, rfl⟩ := ok_of_map (Except.ok.inj hconv)
    obtain rfl := mem_singleton.mp hmem
    exact hp
  | _ =>
    obtain ⟨_, -, rfl⟩ := ok_of_map (Except.ok.inj hconv)
    cases hmem

theorem index_of_hasVote {m : HasVoteMessage} (h : m.validateBasic = none) : 0 ≤ m.index := by
  iterate 3 obtain ⟨-, h⟩ := of_check_eq_none h
  exact not_lt.mp (of_check_eq_none h).1

theorem index_of_hasProposalBlockPart {m : HasProposalBlockPartMessage}
    (h : m.validateBasic = none) : 0 ≤ m.index := by
  iterate 2 obtain ⟨-, h⟩ := of_check_eq_none h
  exact not_lt.mp (of_check_eq_none h).1

theorem index_of_vote {vote : Types.Vote} (h : vote.validateBasic = true) :
    0 ≤ vote.validatorIndex := by
  obtain ⟨-, -, -, -, -, -, hindex, -⟩ := of_decide_eq_true h
  exact hindex

/-- The messages whose array is kept do not have an empty one. -/
theorem nonempty_of_newValidBlock {m : NewValidBlockMessage} (h : m.validateBasic = none)
    (hwf : m.blockParts.WellFormed) : m.blockParts.Nonempty := by
  iterate 3 obtain ⟨-, h⟩ := of_check_eq_none h
  exact ⟨hwf, lt_of_le_of_ne hwf.bits (Ne.symm (of_check_eq_none h).1)⟩

theorem nonempty_of_proposalPOL {m : ProposalPOLMessage} (h : m.validateBasic = none)
    (hwf : m.proposalPOL.WellFormed) : m.proposalPOL.Nonempty := by
  iterate 2 obtain ⟨-, h⟩ := of_check_eq_none h
  exact ⟨hwf, lt_of_le_of_ne hwf.bits (Ne.symm (of_check_eq_none h).1)⟩

namespace PeerState

variable {ps : PeerState}

section

variable (h : ps.Sound)

include h

theorem Sound.applyNewRoundStepMessage (msg : NewRoundStepMessage) :
    (ps.applyNewRoundStepMessage msg).Sound := by
  unfold PeerState.applyNewRoundStepMessage
  dsimp only
  split
  · exact h
  · exact h

theorem Sound.applyNewValidBlockMessage {msg : NewValidBlockMessage}
    (hmsg : msg.blockParts.Nonempty) : (ps.applyNewValidBlockMessage msg).Sound := by
  unfold PeerState.applyNewValidBlockMessage
  split_ifs
  · exact h
  · exact h
  · exact h.point hmsg

theorem Sound.applyProposalPOLMessage {msg : ProposalPOLMessage} (hmsg : msg.proposalPOL.Nonempty) :
    (ps.applyProposalPOLMessage msg).Sound := by
  unfold PeerState.applyProposalPOLMessage
  split_ifs
  · exact h
  · exact h
  · exact h.point hmsg

/-- A valid message with well-formed arrays can be received in any state. -/
theorem Sound.receive (view : ReceiveView) (channelID : UInt8) {msg : Msg}
    (hvalid : msg.validateBasic = none) (hwf : ∀ bA ∈ msg.bitArrays, bA.WellFormed) :
    ∃ ps', ps.receive view channelID msg = .ok ps' ∧ ps'.Sound := by
  unfold PeerState.receive
  split_ifs
  · cases msg with
    | newRoundStep m =>
      refine ⟨_, rfl, ?_⟩
      split_ifs
      · exact h.applyNewRoundStepMessage m
      · exact h
    | newValidBlock m =>
      exact ⟨_, rfl, h.applyNewValidBlockMessage
        (nonempty_of_newValidBlock hvalid (hwf _ (mem_singleton_self _)))⟩
    | hasVote m =>
      dsimp only
      unfold applyHasVoteMessage
      split_ifs
      · exact ⟨ps, rfl, h⟩
      · exact h.setHasVote _ _ _ (index_of_hasVote hvalid)
    | hasProposalBlockPart m =>
      dsimp only
      unfold applyHasProposalBlockPartMessage
      split_ifs
      · exact ⟨ps, rfl, h⟩
      · exact h.setHasProposalBlockPart _ _ (index_of_hasProposalBlockPart hvalid)
    | _ => exact ⟨ps, rfl, h⟩
  · exact ⟨ps, rfl, h⟩
  · cases msg with
    | proposal proposal => exact ⟨_, rfl, h.setHasProposal proposal⟩
    | proposalPOL m =>
      exact ⟨_, rfl, h.applyProposalPOLMessage
        (nonempty_of_proposalPOL hvalid (hwf _ (mem_singleton_self _)))⟩
    | blockPart m => exact h.setHasProposalBlockPart _ _ (Int.natCast_nonneg _)
    | _ => exact ⟨ps, rfl, h⟩
  · cases msg with
    | vote vote =>
      have hvote : vote.validateBasic = true := by
        by_contra hne
        rw [Msg.validateBasic, if_neg hne] at hvalid
        cases hvalid
      exact ((h.ensureVoteBitArrays _ _).ensureVoteBitArrays _ _).setHasVote _ _ _
        (index_of_vote hvote)
    | _ => exact ⟨ps, rfl, h⟩
  · cases msg with
    | voteSetBits m =>
      refine h.modify _ fun votes hvotes =>
        exists_hasVotes (fun bA hbA => ?_) (hwf _ (mem_singleton_self _)) hvotes
      split at hbA
      · exact view.nonempty m bA hbA
      · cases hbA
    | _ => exact ⟨ps, rfl, h⟩
  · exact ⟨ps, rfl, h⟩

/-! ### Sound gossip -/

variable (prs : PeerRoundState) (view : DataView) (r : ℕ)

theorem Sound.pickOwnPart : ∃ index, ps.pickOwnPart prs view r = .ok index := by
  unfold PeerState.pickOwnPart
  split
  · exact ⟨_, rfl⟩
  · rename_i header parts hparts
    split_ifs
    · exact exists_pick (fun bA hbA => view.nonempty header bA (hbA ▸ hparts))
        (fun bA hbA => h.deref hbA) r
    · exact ⟨_, rfl⟩

theorem Sound.pickPartForCatchup : ∃ part, ps.pickPartForCatchup prs view r = .ok part := by
  have hpick : ∃ index, pickRandom r ((ps.deref prs.proposalBlockParts).map BitArray.not) =
      .ok index := by
    cases hderef : ps.deref prs.proposalBlockParts with
    | none => exact ⟨none, rfl⟩
    | some bA => exact (h.deref hderef).not.pickRandom r
  obtain ⟨index, hindex⟩ := hpick
  exact ⟨_, by rw [PeerState.pickPartForCatchup, bind_of_ok hindex]; rfl⟩

theorem Sound.pickStoredPart : ∃ ps', ps.pickStoredPart prs view r = .ok ps' ∧ ps'.Sound := by
  unfold PeerState.pickStoredPart
  split_ifs
  · split
    · refine ⟨_, rfl, ?_⟩
      split
      · exact h
      · exact h.initProposalBlockParts _
    · obtain ⟨part, hpart⟩ := h.pickPartForCatchup prs view r
      exact ⟨ps, by rw [hpart]; rfl, h⟩
  · exact ⟨ps, rfl, h⟩

theorem Sound.pickPartToSend : ∃ ps', ps.pickPartToSend prs view r = .ok ps' ∧ ps'.Sound := by
  obtain ⟨own, hown⟩ := h.pickOwnPart prs view r
  rw [PeerState.pickPartToSend, bind_of_ok hown]
  split
  · exact ⟨ps, rfl, h⟩
  · exact h.pickStoredPart prs view r

end

end PeerState

namespace Gossip

/-- The bit arrays that the peer sends are well formed, and no message for a vote lacks it. -/
def Honest (_ : Gossip) : Event → Prop
  | .receive _ p _ => BitsWellFormed p ∧ p ≠ .vote none
  | _ => True

/-- What holds between two events. -/
structure Sound (g : Gossip) : Prop where
  arrays : g.ps.Sound
  picked : ∀ vote ∈ g.picked, 0 ≤ vote.validatorIndex

theorem receiveMsg_of_msgFromProto {p : Body} {msg : Msg}
    (h : msgFromProto (some p) = .ok (.ok msg)) : receiveMsg p = .ok (.ok msg) := by
  have hvalid : validated msg = .ok msg := by
    rw [validated, validateBasic_of_msgFromProto h]
  rw [receiveMsg, h]
  exact congrArg Except.ok hvalid

/-- No event panics on sound arrays, and the arrays stay sound. -/
theorem Sound.step {g : Gossip} (h : g.Sound) {e : Event} (he : g.Honest e) :
    ∃ g', g.step e = .ok g' ∧ g'.Sound := by
  cases e with
  | receive channelID p view =>
    obtain ⟨hp, hvote⟩ := he
    obtain ⟨result, hresult, -⟩ := exists_msgFromProto hvote
    cases result with
    | error e =>
      -- the message is refused
      refine ⟨g, ?_, h⟩
      rw [Gossip.step, receiveMsg, hresult]
      rfl
    | ok msg =>
      obtain ⟨ps', hps', hsound⟩ := h.arrays.receive view channelID
        (validateBasic_of_msgFromProto hresult) (bitArrays_of_msgFromProto hp hresult)
      refine ⟨{ g with ps := ps' }, ?_, hsound, h.picked⟩
      rw [Gossip.step, bind_of_ok (receiveMsg_of_msgFromProto hresult)]
      show (g.ps.receive view channelID msg >>= _) = _
      rw [bind_of_ok hps']
      rfl
  | getRoundState => exact ⟨_, rfl, h.arrays, h.picked⟩
  | pickPartToSend copy view r =>
    rw [Gossip.step]
    split
    · exact ⟨g, rfl, h⟩
    · rename_i prs hprs
      obtain ⟨ps', hps', hsound⟩ := h.arrays.pickPartToSend prs view r
      exact ⟨{ g with ps := ps' }, by rw [hps']; rfl, hsound, h.picked⟩
  | sentPart copy index =>
    rw [Gossip.step]
    split
    · exact ⟨g, rfl, h⟩
    · rename_i prs hprs
      obtain ⟨ps', hps', hsound⟩ := h.arrays.setHasProposalBlockPart prs.height prs.round
        (Int.natCast_nonneg index.toNat)
      exact ⟨{ g with ps := ps' }, by rw [hps']; rfl, hsound, h.picked⟩
  | sentProposal proposal => exact ⟨_, rfl, h.arrays.setHasProposal proposal, h.picked⟩
  | pickVoteToSend votes r =>
    obtain ⟨ps', vote, hpick, hsound, hindex⟩ := h.arrays.pickVoteToSend votes r
    refine ⟨{ g with ps := ps', picked := g.picked ++ vote.toList }, by rw [Gossip.step, hpick]; rfl,
      hsound, fun v hv => ?_⟩
    rcases mem_append.mp hv with hv | hv
    · exact h.picked v hv
    · exact hindex v (Option.mem_toList.mp hv)
  | sentVote i =>
    rw [Gossip.step]
    split
    · exact ⟨g, rfl, h⟩
    · rename_i vote hvote
      obtain ⟨ps', hps', hsound⟩ := h.arrays.setHasVote vote.height vote.round vote.type
        (h.picked vote (mem_of_getElem? hvote))
      exact ⟨{ g with ps := ps' }, by rw [hps']; rfl, hsound, h.picked⟩

theorem sound_of_steps {g : Gossip} (hr : Steps next Honest {} g) : g.Sound := by
  refine hr.invariant ⟨forall_mem_nil _, forall_mem_nil _⟩ fun t e u ht he hnext => ?_
  obtain ⟨g', hg', hsound⟩ := ht.step he
  rw [next, hg'] at hnext
  cases hnext
  exact hsound

/-- **Well-formed bit arrays never crash the node.** In every run in which the bit arrays that the
peer sends have the words that their bits need, and no vote is missing in a message for one, whatever
is accepted has such arrays, and none of the operations of the Reactor on them panics, in a message
handler or in a gossip routine. -/
theorem bitArrays_sound {g : Gossip} (hr : Steps next Honest {} g) {e : Event} (he : g.Honest e) :
    (∃ g', g.step e = .ok g') ∧
      ∀ channelID p view, e = .receive channelID p view →
        ∀ msg, msgFromProto (some p) = .ok (.ok msg) → ∀ bA ∈ msg.bitArrays, bA.WellFormed := by
  obtain ⟨g', hg', -⟩ := (sound_of_steps hr).step he
  refine ⟨⟨g', hg'⟩, ?_⟩
  rintro channelID p view rfl msg hmsg
  exact bitArrays_of_msgFromProto he.1 hmsg

/-! ### A peer that sends one bit and no word -/

def plainView : ReceiveView where
  initialHeight := 1
  waitSync := false
  height := 2
  valSize := 4
  lastCommitSize := 4
  ourVotes := fun _ => none
  nonempty := nofun

/-- The node is one height ahead of the peer. -/
def aheadView : DataView where
  height := 2
  proposalBlockParts := none
  blockStoreBase := 1
  loadBlockMeta := fun _ => none
  loadBlockPart := fun _ _ => none
  nonempty := nofun

/-- Height one, round zero, and the first step. -/
def firstStep : Body := .newRoundStep { height := 1, step := 1, lastCommitRound := -1 }

/-- `NewValidBlock` of height one for a part set with one part. -/
def validBlock (elems : List Word) : Body :=
  .newValidBlock
    { height := 1, blockPartSetHeader := ⟨1, []⟩, blockParts := some ⟨1, elems⟩ }

/-- The bytes of `validBlock []`. -/
def emptyValidBlock : Bytes := [0x12, 0x0a, 0x08, 0x01, 0x1a, 0x02, 0x08, 0x01, 0x22, 0x02, 0x08, 0x01]

/-- The peer is at height one, names its part set, and the routine that gossips block parts picks
one to send. -/
def catchupRun (elems : List Word) : List Event :=
  [.receive stateChannel firstStep plainView,
    .receive stateChannel (validBlock elems) plainView, .getRoundState]

/-- **One bit and no word**: the message is accepted, its array is kept, and the gossip routine
panics when it picks a part. An array with a negative number of bits is accepted as well. -/
theorem bitArrays_panic :
    decodeNativeMessage emptyValidBlock = some (validBlock []) ∧
      msgFromProto (some (validBlock [])) =
        .ok (.ok (.newValidBlock ⟨1, 0, ⟨1, []⟩, ⟨1, []⟩, false⟩)) ∧
      ((exec next {} (catchupRun [])).map fun g => (g.step (.pickPartToSend 0 aheadView 0)).toBool) =
        some false ∧
      msgFromProto (some (.proposalPOL { height := 1, proposalPol := ⟨-200, []⟩ })) =
        .ok (.ok (.proposalPOL ⟨1, 0, ⟨-200, []⟩⟩)) := by
  decide +kernel

theorem honest_catchupRun : ∀ e ∈ catchupRun [0], ∀ g : Gossip, g.Honest e := by
  intro e he g
  fin_cases he
  · exact ⟨trivial, by rintro ⟨⟩⟩
  · refine ⟨?_, by rintro ⟨⟩⟩
    rintro bA ⟨⟩
    exact ⟨by decide, rfl⟩
  · trivial

/-- With the word, a part is picked. -/
theorem bitArrays_sound_catchup :
    ∃ g, exec next {} (catchupRun [0]) = some g ∧
      ∃ g', g.step (.pickPartToSend 0 aheadView 0) = .ok g' := by
  have hsome : (exec next {} (catchupRun [0])).isSome = true := by decide +kernel
  obtain ⟨g, hg⟩ := Option.isSome_iff_exists.mp hsome
  exact ⟨g, hg, (bitArrays_sound (steps_of_exec_of honest_catchupRun hg)
    (e := .pickPartToSend 0 aheadView 0) trivial).1⟩

end Gossip

end CometBFT.Consensus
