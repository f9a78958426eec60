import CometBFT.Lib.Quorum
import CometBFT.Lib.Runs
import CometBFT.Types.ChangeSet
import CometBFT.Types.Vote

/-!
# Vote sets

The model of `types/vote_set.go`. A vote set collects the votes of one height, round and type in two
places: `votes` has one vote for each validator, and `votesByBlock` has the votes for each block that
is tracked, under the key of its id.

An array with one entry for each validator is a function of the index here. `AddVote` looks the
validator up before it uses an index, so that no index is out of range. The sums stay below the total
power, so they are integers.

## Main results

* `addVerifiedVote_spec` — what the three exits of `addVerifiedVote` do
* `addVote_spec` — a vote is refused, or checked and passed on
-/

namespace CometBFT.Types

open Function List Validators

/-- The votes for one block. -/
structure BlockVotes where
  peerMaj23 : Bool
  bitArray : ℕ → Bool := fun _ => false
  votes : ℕ → Option Vote := fun _ => none
  sum : ℤ := 0

structure VoteSet where
  chainID : String
  height : ℤ
  round : ℤ
  signedMsgType : SignedMsgType
  valSet : ValidatorSet
  extensionsEnabled : Bool := false
  votesBitArray : ℕ → Bool := fun _ => false
  votes : ℕ → Option Vote := fun _ => none
  sum : ℤ := 0
  maj23 : Option BlockID := none
  votesByBlock : Bytes → Option BlockVotes := fun _ => none
  peerMaj23s : String → Option BlockID := fun _ => none

/-- `NewVoteSet` and, with `extensionsEnabled`, `NewExtendedVoteSet`. -/
def newVoteSet (chainID : String) (height round : ℤ) (signedMsgType : SignedMsgType)
    (valSet : ValidatorSet) (extensionsEnabled : Bool) : Except Failure VoteSet :=
  if height = 0 then .error (.panic "Cannot make VoteSet for height == 0, doesn't make sense.")
  else .ok { chainID, height, round, signedMsgType, valSet, extensionsEnabled }

theorem newVoteSet_eq {chainID : String} {height round : ℤ} {signedMsgType : SignedMsgType}
    {valSet : ValidatorSet} {extensionsEnabled : Bool} {vs : VoteSet}
    (h : newVoteSet chainID height round signedMsgType valSet extensionsEnabled = .ok vs) :
    height ≠ 0 ∧ vs = { chainID, height, round, signedMsgType, valSet, extensionsEnabled } := by
  unfold newVoteSet at h
  split at h
  · cases h
  · exact ⟨‹_›, (Except.ok.inj h).symm⟩

def ValidatorSet.getByIndex (vals : ValidatorSet) (index : ℤ) : Option Validator :=
  if index < 0 then none else vals.validators[index.toNat]?

namespace BlockVotes

def addVerifiedVote (vs : BlockVotes) (vote : Vote) (votingPower : ℤ) : BlockVotes :=
  let valIndex := vote.validatorIndex.toNat
  match vs.votes valIndex with
  | some _ => vs
  | none =>
    { vs with
      bitArray := update vs.bitArray valIndex true
      votes := update vs.votes valIndex (some vote)
      sum := vs.sum + votingPower }

/-- The votes for a block that a peer claims a majority for. -/
def claim : Option BlockVotes → BlockVotes
  | some votesByBlock => { votesByBlock with peerMaj23 := true }
  | none => { peerMaj23 := true }

end BlockVotes

namespace VoteSet

variable (voteSet : VoteSet)

def getVote (valIndex : ℕ) (blockKey : Bytes) : Option Vote :=
  let byBlock := (voteSet.votesByBlock blockKey).bind fun byBlock => byBlock.votes valIndex
  match voteSet.votes valIndex with
  | some existing => if existing.blockID.key = blockKey then some existing else byBlock
  | none => byBlock

/-- The first part of `addVerifiedVote`: the canonical vote of the validator, and the one it has
already. -/
def recordVote (vote : Vote) (blockKey : Bytes) (votingPower : ℤ) :
    Except Failure (VoteSet × Option Vote) :=
  let valIndex := vote.validatorIndex.toNat
  let recorded := { voteSet with
    votes := update voteSet.votes valIndex (some vote)
    votesBitArray := update voteSet.votesBitArray valIndex true }
  match voteSet.votes valIndex with
  | some existing =>
    if existing.blockID = vote.blockID then
      .error (.panic "addVerifiedVote does not expect duplicate votes")
    -- the vote is replaced if it is not for the block with the majority and the new one is
    else if voteSet.maj23.map BlockID.key = some blockKey then .ok (recorded, some existing)
    else .ok (voteSet, some existing)
  | none => .ok ({ recorded with sum := voteSet.sum + votingPower }, none)

/-- The last part of `addVerifiedVote`: the vote is added to those for its block. -/
def countVote (vote : Vote) (blockKey : Bytes) (votingPower : ℤ) (votesByBlock : BlockVotes) :
    Except Failure VoteSet := do
  let total ← voteSet.valSet.getTotalVotingPower
  let quorum := total * 2 / 3 + 1
  let counted := votesByBlock.addVerifiedVote vote votingPower
  let voteSet := { voteSet with votesByBlock := update voteSet.votesByBlock blockKey (some counted) }
  if votesByBlock.sum < quorum ∧ quorum ≤ counted.sum ∧ voteSet.maj23 = none then
    return { voteSet with
      maj23 := some vote.blockID
      votes := fun i => counted.votes i <|> voteSet.votes i }
  else return voteSet

/-- Whether the vote was added, and the vote it conflicts with. -/
def addVerifiedVote (vote : Vote) (blockKey : Bytes) (votingPower : ℤ) :
    Except Failure (VoteSet × Bool × Option Vote) := do
  let (voteSet, conflicting) ← voteSet.recordVote vote blockKey votingPower
  match voteSet.votesByBlock blockKey with
  | some votesByBlock =>
    if conflicting.isSome ∧ votesByBlock.peerMaj23 = false then
      return (voteSet, false, conflicting)
    else
      return (← voteSet.countVote vote blockKey votingPower votesByBlock, true, conflicting)
  | none =>
    if conflicting.isSome then return (voteSet, false, conflicting)
    else
      return (← voteSet.countVote vote blockKey votingPower { peerMaj23 := false }, true, conflicting)

/-- The check of the signature in `addVote`. -/
def verifyVote (crypto : Crypto) (vote : Vote) (val : Validator) :
    Except Failure (Option VoteError) :=
  match val.pubKey with
  | none => .error (.panic nilDereference)
  | some pubKey =>
    if voteSet.extensionsEnabled then vote.verifyVoteAndExtension crypto voteSet.chainID pubKey
    else do
      match ← vote.verify crypto voteSet.chainID pubKey with
      | some e => return some e
      | none =>
        if vote.extensionSignature ≠ [] ∨ vote.extension ≠ [] then return some .unexpectedExtension
        else return none

def addVote (crypto : Crypto) (vote : Vote) :
    Except Failure (VoteSet × Bool × Option VoteError) :=
  if vote.validatorIndex < 0 then .ok (voteSet, false, some .invalidValidatorIndex)
  else if vote.validatorAddress = [] then .ok (voteSet, false, some .invalidValidatorAddress)
  else if vote.height ≠ voteSet.height ∨ vote.round ≠ voteSet.round ∨
      vote.type ≠ voteSet.signedMsgType then .ok (voteSet, false, some .unexpectedStep)
  else match voteSet.valSet.getByIndex vote.validatorIndex with
  | none => .ok (voteSet, false, some .invalidValidatorIndex)
  | some val =>
    if vote.validatorAddress ≠ val.address then
      .ok (voteSet, false, some .invalidValidatorAddress)
    else match voteSet.getVote vote.validatorIndex.toNat vote.blockID.key with
    | some existing =>
      if existing.signature = vote.signature then .ok (voteSet, false, none)
      else .ok (voteSet, false, some .nonDeterministicSignature)
    | none => do
      match ← voteSet.verifyVote crypto vote val with
      | some e => return (voteSet, false, some e)
      | none =>
        let (voteSet, added, conflicting) ←
          voteSet.addVerifiedVote vote vote.blockID.key val.votingPower
        match conflicting with
        | some conflicting => return (voteSet, added, some (.conflictingVotes conflicting vote))
        | none =>
          if added then return (voteSet, added, none)
          else .error (.panic "Expected to add non-conflicting vote")

/-- A peer claims a majority for a block; whether that is accepted. -/
def setPeerMaj23 (peerID : String) (blockID : BlockID) : VoteSet × Bool :=
  match voteSet.peerMaj23s peerID with
  | some existing => (voteSet, existing = blockID)
  | none =>
    ({ voteSet with
      peerMaj23s := update voteSet.peerMaj23s peerID (some blockID)
      votesByBlock := update voteSet.votesByBlock blockID.key
        (some (BlockVotes.claim (voteSet.votesByBlock blockID.key))) }, true)

end VoteSet

/-! ### Validator sets that votes are counted for -/

namespace ValidatorSet

/-- A validator set as `NewValidatorSet` and `UpdateWithChangeSet` make them: the powers are
positive, and the cached total is their sum. -/
structure Valid (vals : ValidatorSet) : Prop where
  pos : ∀ v ∈ vals.validators, 0 < v.votingPower
  total : vals.totalVotingPower = Validators.powerSum vals.validators

variable (vals : ValidatorSet)

/-- The power of the validator at an index. -/
def power (i : ℕ) : ℤ := (vals.validators[i]?.map Validator.votingPower).getD 0

/-- The indices of the validators. -/
def indices : Finset ℕ := Finset.range vals.validators.length

variable {vals}

theorem power_of_getElem? {i : ℕ} {val : Validator} (h : vals.validators[i]? = some val) :
    vals.power i = val.votingPower := by
  rw [power, h, Option.map_some, Option.getD_some]

theorem Valid.power_pos (h : vals.Valid) {i : ℕ} (hi : i ∈ vals.indices) : 0 < vals.power i := by
  have hlt := Finset.mem_range.mp hi
  rw [power_of_getElem? (getElem?_eq_getElem hlt)]
  exact h.pos _ (getElem_mem hlt)

theorem Valid.power_nonneg (h : vals.Valid) : ∀ i ∈ vals.indices, 0 ≤ vals.power i :=
  fun _ hi => (h.power_pos hi).le

theorem weight_indices (vals : ValidatorSet) :
    weight vals.power vals.indices = Validators.powerSum vals.validators := by
  have hsum : ∀ l : List Validator, ∑ i ∈ Finset.range l.length,
      (l[i]?.map Validator.votingPower).getD 0 = (l.map Validator.votingPower).sum := by
    intro l
    induction l with
    | nil => rfl
    | cons v l ih =>
      rw [length_cons, Finset.sum_range_succ', map_cons, sum_cons, ← ih, add_comm]
      rfl
  exact hsum vals.validators

theorem Valid.getTotalVotingPower (h : vals.Valid) :
    vals.getTotalVotingPower = .ok (weight vals.power vals.indices) := by
  rw [weight_indices]
  exact getTotalVotingPower_eq h.total h.pos

end ValidatorSet

/-! ### What adding a vote does -/

namespace VoteSet

variable {crypto : Crypto} {vs vs' : VoteSet} {vote : Vote} {key : Bytes} {power : ℤ}
  {added : Bool} {conflicting : Option Vote}

/-- A vote that `addVote` found nothing wrong with, from the validator at its index. -/
structure Verified (crypto : Crypto) (vs : VoteSet) (vote : Vote) (val : Validator) : Prop where
  index_nonneg : 0 ≤ vote.validatorIndex
  height : vote.height = vs.height
  round : vote.round = vs.round
  type : vote.type = vs.signedMsgType
  lookup : vs.valSet.validators[vote.validatorIndex.toNat]? = some val
  address : vote.validatorAddress = val.address
  verify : vs.verifyVote crypto vote val = .ok none

/-- What verifies as a vote of a validator has a signature under its key. -/
theorem verify_of_verifyVote {val : Validator} (h : vs.verifyVote crypto vote val = .ok none) :
    ∃ pubKey, val.pubKey = some pubKey ∧ vote.verify crypto vs.chainID pubKey = .ok none := by
  unfold verifyVote at h
  split at h
  · cases h
  rename_i pubKey hpubKey
  refine ⟨pubKey, hpubKey, ?_⟩
  split at h
  all_goals
    obtain ⟨err, hverify, h⟩ := ok_of_bind h
    cases err with
    | none => exact hverify
    | some e => cases h

/-- **A vote is refused, or checked and passed on.** -/
theorem addVote_spec {err : Option VoteError} (h : vs.addVote crypto vote = .ok (vs', added, err)) :
    (vs' = vs ∧ added = false) ∨
      ∃ val conflicting, Verified crypto vs vote val ∧
        vs.getVote vote.validatorIndex.toNat vote.blockID.key = none ∧
        vs.addVerifiedVote vote vote.blockID.key val.votingPower = .ok (vs', added, conflicting) := by
  unfold addVote at h
  repeat' split at h
  -- a vote that is refused changes nothing
  any_goals
    cases h
    exact .inl ⟨rfl, rfl⟩
  rename_i hindex _ hstep _ val hval haddr _ hget
  push Not at hstep
  obtain ⟨verified, hverify, h⟩ := ok_of_bind h
  cases verified with
  | some e =>
    cases h
    exact .inl ⟨rfl, rfl⟩
  | none =>
    obtain ⟨⟨vs₁, added₁, conflicting⟩, hadd, h⟩ := ok_of_bind h
    have hval' : vs.valSet.validators[vote.validatorIndex.toNat]? = some val := by
      unfold ValidatorSet.getByIndex at hval
      rwa [if_neg hindex] at hval
    refine .inr ⟨val, conflicting, ⟨not_lt.mp hindex, hstep.1, hstep.2.1, hstep.2.2, hval',
      not_not.mp haddr, hverify⟩, hget, ?_⟩
    dsimp only at h
    repeat' split at h
    all_goals
      cases h
      try exact hadd

/-- The first part: a first vote, or one that conflicts with another. -/
theorem recordVote_spec (h : vs.recordVote vote key power = .ok (vs', conflicting)) :
    (vs.votes vote.validatorIndex.toNat = none ∧ conflicting = none ∧
      vs' = { vs with
        votes := update vs.votes vote.validatorIndex.toNat (some vote)
        votesBitArray := update vs.votesBitArray vote.validatorIndex.toNat true
        sum := vs.sum + power }) ∨
    ∃ existing, vs.votes vote.validatorIndex.toNat = some existing ∧
      conflicting = some existing ∧ existing.blockID ≠ vote.blockID ∧
      (vs.maj23.map BlockID.key = some key ∧
        vs' = { vs with
          votes := update vs.votes vote.validatorIndex.toNat (some vote)
          votesBitArray := update vs.votesBitArray vote.validatorIndex.toNat true } ∨
        vs.maj23.map BlockID.key ≠ some key ∧ vs' = vs) := by
  unfold recordVote at h
  dsimp only at h
  split at h
  · rename_i existing hexisting
    split at h
    · cases h
    rename_i hne
    refine .inr ⟨existing, hexisting, ?_⟩
    split at h
    · rename_i hmaj
      cases h
      exact ⟨rfl, hne, .inl ⟨hmaj, rfl⟩⟩
    · rename_i hmaj
      cases h
      exact ⟨rfl, hne, .inr ⟨hmaj, rfl⟩⟩
  · rename_i hnone
    cases h
    exact .inl ⟨hnone, rfl, rfl⟩

/-- **The exits of `addVerifiedVote`**: a conflicting vote for a block that no peer claims a majority
for is dropped; any other vote is counted. -/
theorem addVerifiedVote_spec (h : vs.addVerifiedVote vote key power = .ok (vs', added, conflicting)) :
    ∃ vs₁, vs.recordVote vote key power = .ok (vs₁, conflicting) ∧
      (added = false ∧ vs' = vs₁ ∧ conflicting.isSome = true ∧
          (∀ bv, vs₁.votesByBlock key = some bv → bv.peerMaj23 = false) ∨
        added = true ∧ ∃ bv, vs₁.countVote vote key power bv = .ok vs' ∧
          (vs₁.votesByBlock key = some bv ∧ (conflicting.isSome = true → bv.peerMaj23 = true) ∨
            vs₁.votesByBlock key = none ∧ conflicting = none ∧ bv = { peerMaj23 := false })) := by
  obtain ⟨⟨vs₁, conflicting₁⟩, hrecord, h⟩ := ok_of_bind h
  dsimp only at h
  split at h
  · rename_i bv hbv
    split at h
    · rename_i hdrop
      cases h
      refine ⟨vs', hrecord, .inl ⟨rfl, rfl, hdrop.1, fun bv' hbv' => ?_⟩⟩
      rw [hbv] at hbv'
      cases hbv'
      exact hdrop.2
    · rename_i hkeep
      obtain ⟨vs₂, hcount, h⟩ := ok_of_bind h
      cases h
      refine ⟨vs₁, hrecord, .inr ⟨rfl, bv, hcount, .inl ⟨hbv, fun hsome => ?_⟩⟩⟩
      by_contra hfalse
      exact hkeep ⟨hsome, by simpa using hfalse⟩
  · rename_i hnone
    split at h
    · rename_i hsome
      cases h
      refine ⟨vs', hrecord, .inl ⟨rfl, rfl, hsome, fun bv hbv => ?_⟩⟩
      rw [hnone] at hbv
      cases hbv
    · rename_i hnotsome
      obtain ⟨vs₂, hcount, h⟩ := ok_of_bind h
      cases h
      exact ⟨vs₁, hrecord, .inr ⟨rfl, _, hcount, .inr ⟨hnone, by simpa using hnotsome, rfl⟩⟩⟩

/-- The last part: the votes for the block, and whether that gives the first majority. -/
theorem countVote_spec {bv : BlockVotes} (hvals : vs.valSet.Valid)
    (h : vs.countVote vote key power bv = .ok vs') :
    let counted := bv.addVerifiedVote vote power
    let total := weight vs.valSet.power vs.valSet.indices
    (3 * bv.sum ≤ 2 * total ∧ 2 * total < 3 * counted.sum ∧ vs.maj23 = none ∧
      vs' = { vs with
        votesByBlock := update vs.votesByBlock key (some counted)
        maj23 := some vote.blockID
        votes := fun i => counted.votes i <|> vs.votes i }) ∨
    ((2 * total < 3 * counted.sum → vs.maj23 = none → 2 * total < 3 * bv.sum) ∧
      vs' = { vs with votesByBlock := update vs.votesByBlock key (some counted) }) := by
  intro counted total
  unfold countVote at h
  rw [hvals.getTotalVotingPower] at h
  change (if _ then _ else _) = _ at h
  split at h
  · rename_i hcross
    cases h
    have h₁ := hcross.1
    have h₂ := two_thirds_lt_iff.mp hcross.2.1
    exact .inl ⟨by omega, h₂, hcross.2.2, rfl⟩
  · rename_i hcross
    cases h
    refine .inr ⟨fun hsum hnone => ?_, rfl⟩
    by_contra hle
    refine hcross ⟨?_, two_thirds_lt_iff.mpr hsum, hnone⟩
    change bv.sum < total * 2 / 3 + 1
    omega

/-- An entry of `votesByBlock` as it was, or marked. -/
def Claimed (o o' : Option BlockVotes) : Prop := o' = o ∨ o' = some (BlockVotes.claim o)

theorem Claimed.of_some {o o' : Option BlockVotes} {bv : BlockVotes} (h : Claimed o o')
    (ho : o = some bv) : ∃ bv', o' = some bv' ∧ bv'.votes = bv.votes ∧ bv'.sum = bv.sum := by
  subst ho
  rcases h with rfl | rfl
  · exact ⟨bv, rfl, rfl, rfl⟩
  · exact ⟨_, rfl, rfl, rfl⟩

theorem Claimed.to_some {o o' : Option BlockVotes} {bv' : BlockVotes} (h : Claimed o o')
    (ho : o' = some bv') :
    bv' = { peerMaj23 := true } ∨ ∃ bv, o = some bv ∧ bv'.votes = bv.votes ∧
      bv'.bitArray = bv.bitArray ∧ bv'.sum = bv.sum := by
  subst ho
  rcases h with rfl | h
  · exact .inr ⟨bv', rfl, rfl, rfl, rfl⟩
  · cases o with
    | none => exact .inl (Option.some.inj h)
    | some bv =>
      cases h
      exact .inr ⟨bv, rfl, rfl, rfl, rfl⟩

/-- A claim changes nothing but the entry of the block, and that only by the mark. -/
theorem setPeerMaj23_spec (vs : VoteSet) (peerID : String) (blockID : BlockID) :
    ∃ peers byBlock, (vs.setPeerMaj23 peerID blockID).1 =
        { vs with peerMaj23s := peers, votesByBlock := byBlock } ∧
      ∀ key, Claimed (vs.votesByBlock key) (byBlock key) := by
  unfold setPeerMaj23
  split
  · exact ⟨_, _, rfl, fun _ => .inl rfl⟩
  · refine ⟨_, _, rfl, fun key => ?_⟩
    by_cases hkey : key = blockID.key
    · exact .inr (by rw [hkey, update_self])
    · exact .inl (by rw [update_of_ne hkey])

theorem countVote_votesByBlock {bv : BlockVotes} (h : vs.countVote vote key power bv = .ok vs') :
    ∃ counted, vs'.votesByBlock = update vs.votesByBlock key (some counted) := by
  obtain ⟨total, -, h⟩ := ok_of_bind h
  dsimp only at h
  split at h
  · cases h
    exact ⟨_, rfl⟩
  · cases h
    exact ⟨_, rfl⟩

/-- A vote touches no entry but that of its block. -/
theorem addVote_votesByBlock {err : Option VoteError}
    (h : vs.addVote crypto vote = .ok (vs', added, err)) (hkey : key ≠ vote.blockID.key) :
    vs'.votesByBlock key = vs.votesByBlock key := by
  rcases addVote_spec h with ⟨rfl, -⟩ | ⟨val, conflicting, -, -, h⟩
  · rfl
  obtain ⟨vs₁, hrecord, h⟩ := addVerifiedVote_spec h
  have hsame : vs₁.votesByBlock = vs.votesByBlock := by
    rcases recordVote_spec hrecord with ⟨-, -, rfl⟩ | ⟨_, -, -, -, ⟨-, rfl⟩ | ⟨-, rfl⟩⟩ <;> rfl
  rcases h with ⟨-, rfl, -⟩ | ⟨-, bv, h, -⟩
  · rw [hsame]
  · obtain ⟨counted, heq⟩ := countVote_votesByBlock h
    rw [heq, update_of_ne hkey, hsame]

/-- **Keys are faithful**: an id that a vote can have shares its key with no other valid id, so that
neither a vote for another block nor a claim of one touches its entry. -/
theorem votesByBlock_separate {a b : BlockID} (ha : a.isNil = true ∨ a.isComplete = true)
    (hb : b.validateBasic = true) :
    (a.key = b.key → a.equals b = true) ∧
      (a.equals b = false → ∀ vs : VoteSet,
        (∀ peerID, (vs.setPeerMaj23 peerID b).1.votesByBlock a.key = vs.votesByBlock a.key) ∧
        ∀ crypto vote vs' added err, vote.blockID = b →
          vs.addVote crypto vote = .ok (vs', added, err) →
          vs'.votesByBlock a.key = vs.votesByBlock a.key) := by
  have hkey : a.key = b.key → a.equals b = true := fun h =>
    BlockID.equals_iff.mpr (BlockID.eq_of_key_eq ha hb h.symm).symm
  refine ⟨hkey, fun hne vs => ?_⟩
  have hne' : a.key ≠ b.key := fun h => nomatch hne.symm.trans (hkey h)
  refine ⟨fun peerID => ?_, ?_⟩
  · unfold setPeerMaj23
    split
    · rfl
    · exact update_of_ne hne' _ _
  · rintro crypto vote vs' added err rfl h
    exact addVote_votesByBlock h hne'

/-- The votes for a block stay when another is claimed. -/
theorem votesByBlock_separate_claimed :
    let id (byte : UInt8) : BlockID := ⟨replicate 32 byte, ⟨1, replicate 32 byte⟩⟩
    let bv := BlockVotes.addVerifiedVote { peerMaj23 := false }
      { type := .prevote, height := 1, round := 0, blockID := id 1, validatorAddress := [],
        validatorIndex := 0 } 3
    let vs : VoteSet := { chainID := "", height := 1, round := 0, signedMsgType := .prevote, valSet := {},
                          votesByBlock := update (fun _ => none) (id 1).key (some bv) }
    (vs.setPeerMaj23 "" (id 2)).1.votesByBlock (id 1).key = some bv := by
  intro id bv vs
  rw [((@votesByBlock_separate (id 1) (id 2) (.inr rfl) rfl).2 rfl vs).1]
  simp [vs]

theorem getVote_eq_none {i : ℕ} (h : vs.getVote i key = none) :
    (∀ v, vs.votes i = some v → v.blockID.key ≠ key) ∧
      ∀ bv, vs.votesByBlock key = some bv → bv.votes i = none := by
  have hby : (vs.votesByBlock key).bind (fun bv => bv.votes i) = none := by
    unfold getVote at h
    dsimp only at h
    split at h
    · split at h
      · cases h
      · exact h
    · exact h
  constructor
  · intro v hv hkey
    unfold getVote at h
    dsimp only at h
    rw [hv] at h
    dsimp only at h
    rw [if_pos hkey] at h
    cases h
  · intro bv hbv
    rwa [hbv] at hby

end VoteSet

end CometBFT.Types
