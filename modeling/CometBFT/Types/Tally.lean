import CometBFT.Lib.Cache
import CometBFT.Types.VoteSet

/-!
# What a vote set keeps count of

A vote set is filled by calls of `AddVote` and `SetPeerMaj23`, in any order. `Counted` says what holds
of it after any number of them: the arrays, the bit arrays and the sums agree, every vote that is
stored for a block was accepted, and there is a majority exactly if the votes for some block reach the
quorum. It is kept by each part of `addVerifiedVote`, so by every call.

The documentation of `VoteSet` promises more: every canonical vote is also stored among the votes for
its block. That breaks when a validator that voted for something else votes for the block that has
the majority already, and no peer has claimed a majority for it.

## Main results

* `voteSet_consistent` — the documented invariants, as long as no vote is orphaned
* `canonical_vote_orphaned` — a canonical vote that is not stored for its block
* `majority_sound_stable_complete` — what a majority means, and when there is one
* `majority_of_mixed_votes` — a majority of votes for two malformed ids with the same key
-/

namespace CometBFT.Types

open Function Finset Option

/-! ### Arrays, bit arrays and sums -/

/-- The validators that have a vote. -/
def voters (vals : ValidatorSet) (votes : ℕ → Option Vote) : Finset ℕ :=
  vals.indices.filter fun i => (votes i).isSome = true

/-- An array of votes, its bit array and its sum say the same. -/
structure Tallied (vals : ValidatorSet) (votes : ℕ → Option Vote) (bits : ℕ → Bool) (sum : ℤ) :
    Prop where
  bits : ∀ i, bits i = (votes i).isSome
  bound : ∀ i, (votes i).isSome = true → i ∈ vals.indices
  sum : sum = weight vals.power (voters vals votes)

namespace Tallied

variable {vals : ValidatorSet} {votes votes' : ℕ → Option Vote} {bits : ℕ → Bool} {sum : ℤ} {i : ℕ}

theorem empty (vals : ValidatorSet) : Tallied vals (fun _ => none) (fun _ => false) 0 := by
  refine ⟨fun _ => rfl, fun _ h => absurd h Bool.false_ne_true, ?_⟩
  have hnone : voters vals (fun _ => none) = ∅ :=
    filter_false_of_mem fun _ _ => Bool.false_ne_true
  rw [hnone]
  rfl

section

variable (h : Tallied vals votes bits sum)

include h

/-- Which vote it is does not matter. -/
theorem congr (hsome : ∀ i, (votes' i).isSome = (votes i).isSome) :
    Tallied vals votes' bits sum := by
  have hvoters : voters vals votes' = voters vals votes :=
    filter_congr fun i _ => by rw [hsome]
  refine ⟨fun i => (h.bits i).trans (hsome i).symm, fun i hi => h.bound i (hsome i ▸ hi), ?_⟩
  rw [hvoters]
  exact h.sum

/-- Another vote of a validator that has one. -/
theorem replace (hi : (votes i).isSome = true) (vote : Vote) :
    Tallied vals (update votes i (some vote)) (update bits i true) sum := by
  have hbits : update bits i true = bits := by
    rw [update_eq_self_iff, h.bits, hi]
  rw [hbits]
  refine h.congr fun j => ?_
  by_cases hj : j = i
  · rw [hj, update_self, hi]
    rfl
  · rw [update_of_ne hj]

/-- The first vote of a validator. -/
theorem add (hi : i ∈ vals.indices) (hnone : votes i = none) (vote : Vote) :
    Tallied vals (update votes i (some vote)) (update bits i true) (sum + vals.power i) := by
  have hvoters : voters vals (update votes i (some vote)) = insert i (voters vals votes) := by
    ext j
    rw [mem_insert, voters, voters, mem_filter, mem_filter]
    by_cases hj : j = i
    · subst hj
      simp [hi]
    · simp [hj]
  have hnot : i ∉ voters vals votes := by
    rw [voters, mem_filter, hnone]
    exact fun h => nomatch h.2
  refine ⟨fun j => ?_, fun j hj => ?_, ?_⟩
  · by_cases hj : j = i
    · rw [hj, update_self, update_self]
      rfl
    · rw [update_of_ne hj, update_of_ne hj, h.bits]
  · by_cases hji : j = i
    · exact hji ▸ hi
    · rw [update_of_ne hji] at hj
      exact h.bound j hj
  · rw [hvoters, weight, sum_insert hnot, h.sum, weight, add_comm]

theorem sum_le (hvals : vals.Valid) : sum ≤ weight vals.power vals.indices := by
  rw [h.sum]
  exact weight_mono (hvals.power_nonneg) (filter_subset _ _)

end

end Tallied

/-! ### Collecting votes -/

/-- A vote set, and the votes for which `AddVote` returned that they were added. -/
structure Collection where
  set : VoteSet
  accepted : List Vote := []

namespace Collection

inductive Call where
  | addVote (vote : Vote)
  | setPeerMaj23 (peerID : String) (blockID : BlockID)

/-- One call; none if it panics. -/
def next (crypto : Crypto) (c : Collection) : Call → Option Collection
  | .addVote vote =>
    match c.set.addVote crypto vote with
    | .error _ => none
    | .ok (set, added, _) => some ⟨set, if added then c.accepted ++ [vote] else c.accepted⟩
  | .setPeerMaj23 peerID blockID => some ⟨(c.set.setPeerMaj23 peerID blockID).1, c.accepted⟩

end Collection

variable {v : Vote} {b : BlockID}

namespace VoteSet

variable {crypto : Crypto} {vs vs' vs₁ : VoteSet} {accepted : List Vote} {vote : Vote}
  {key : Bytes} {power : ℤ} {conflicting : Option Vote} {val : Validator}

/-- The total power of the validators of a vote set. -/
def total (vs : VoteSet) : ℤ := weight vs.valSet.power vs.valSet.indices

/-- What does not change of a vote set. -/
structure SameStep (vs vs' : VoteSet) : Prop where
  chainID : vs'.chainID = vs.chainID
  height : vs'.height = vs.height
  round : vs'.round = vs.round
  type : vs'.signedMsgType = vs.signedMsgType
  valSet : vs'.valSet = vs.valSet
  extensions : vs'.extensionsEnabled = vs.extensionsEnabled

theorem SameStep.trans {vs₂ : VoteSet} (h : SameStep vs vs₁) (h' : SameStep vs₁ vs₂) :
    SameStep vs vs₂ :=
  ⟨h'.chainID.trans h.chainID, h'.height.trans h.height, h'.round.trans h.round,
    h'.type.trans h.type, h'.valSet.trans h.valSet, h'.extensions.trans h.extensions⟩

theorem Verified.of_sameStep (h : vs.Verified crypto vote val) (hs : SameStep vs vs') :
    vs'.Verified crypto vote val := by
  refine ⟨h.index_nonneg, hs.height ▸ h.height, hs.round ▸ h.round, hs.type ▸ h.type,
    hs.valSet ▸ h.lookup, h.address, ?_⟩
  have hverify := h.verify
  unfold verifyVote at hverify ⊢
  rwa [hs.chainID, hs.extensions]

theorem Verified.mem_indices (h : vs.Verified crypto vote val) :
    vote.validatorIndex.toNat ∈ vs.valSet.indices := by
  obtain ⟨hlt, -⟩ := List.getElem?_eq_some_iff.mp h.lookup
  exact mem_range.mpr hlt

/-- What is kept of the votes for one block. -/
structure BlockCounted (vs : VoteSet) (accepted : List Vote) (key : Bytes) (bv : BlockVotes) :
    Prop where
  tallied : Tallied vs.valSet bv.votes bv.bitArray bv.sum
  stored : ∀ i v, bv.votes i = some v → v ∈ accepted ∧ v.blockID.key = key ∧
    v.validatorIndex.toNat = i ∧ (vs.votes i).isSome = true

/-- What a vote set keeps count of, when the votes `accepted` were added. -/
structure Counted (crypto : Crypto) (vs : VoteSet) (accepted : List Vote) : Prop where
  tallied : Tallied vs.valSet vs.votes vs.votesBitArray vs.sum
  byBlock : ∀ key bv, vs.votesByBlock key = some bv → BlockCounted vs accepted key bv
  counted : ∀ v ∈ accepted, ∃ bv, vs.votesByBlock v.blockID.key = some bv ∧
    (bv.votes v.validatorIndex.toNat).isSome = true
  verified : ∀ v ∈ accepted, ∃ val, vs.Verified crypto v val
  majority : ∀ b, vs.maj23 = some b →
    ∃ bv, vs.votesByBlock b.key = some bv ∧ 2 * vs.total < 3 * bv.sum
  voted : ∀ b, vs.maj23 = some b → ∃ v ∈ accepted, v.blockID = b
  below : vs.maj23 = none → ∀ key bv, vs.votesByBlock key = some bv → 3 * bv.sum ≤ 2 * vs.total

theorem counted_newVoteSet {chainID : String} {height round : ℤ} {type : SignedMsgType}
    {valSet : ValidatorSet} {ext : Bool}
    (h : newVoteSet chainID height round type valSet ext = .ok vs) : Counted crypto vs [] := by
  rw [(newVoteSet_eq h).2]
  refine ⟨.empty _, ?_, ?_, ?_, ?_, ?_, ?_⟩
  · rintro key bv ⟨⟩
  · rintro v ⟨⟩
  · rintro v ⟨⟩
  · rintro b ⟨⟩
  · rintro b ⟨⟩
  · rintro - key bv ⟨⟩

/-- Recording a vote changes the canonical votes, their bit array and their sum. -/
structure Recorded (vs : VoteSet) (vote : Vote) (vs₁ : VoteSet) : Prop where
  same : SameStep vs vs₁
  byBlock : vs₁.votesByBlock = vs.votesByBlock
  maj23 : vs₁.maj23 = vs.maj23
  has : (vs₁.votes vote.validatorIndex.toNat).isSome = true
  keeps : ∀ i, (vs.votes i).isSome = true → (vs₁.votes i).isSome = true
  tallied : Tallied vs₁.valSet vs₁.votes vs₁.votesBitArray vs₁.sum

theorem Counted.record (h : Counted crypto vs accepted)
    (hi : vote.validatorIndex.toNat ∈ vs.valSet.indices)
    (hpower : power = vs.valSet.power vote.validatorIndex.toNat)
    (hrecord : vs.recordVote vote key power = .ok (vs₁, conflicting)) : Recorded vs vote vs₁ := by
  have hupdate : ∀ j, (vs.votes j).isSome = true →
      (update vs.votes vote.validatorIndex.toNat (some vote) j).isSome = true := by
    intro j hj
    by_cases hji : j = vote.validatorIndex.toNat
    · rw [hji, update_self]
      rfl
    · rwa [update_of_ne hji]
  have hself : (update vs.votes vote.validatorIndex.toNat (some vote)
      vote.validatorIndex.toNat).isSome = true := by
    rw [update_self]
    rfl
  rcases recordVote_spec hrecord with ⟨hnone, -, rfl⟩ | ⟨existing, hsome, -, -, ⟨-, rfl⟩ | ⟨-, rfl⟩⟩
  · refine ⟨⟨rfl, rfl, rfl, rfl, rfl, rfl⟩, rfl, rfl, hself, hupdate, ?_⟩
    rw [hpower]
    exact h.tallied.add hi hnone vote
  · exact ⟨⟨rfl, rfl, rfl, rfl, rfl, rfl⟩, rfl, rfl, hself, hupdate,
      h.tallied.replace (by rw [hsome]; rfl) vote⟩
  · exact ⟨⟨rfl, rfl, rfl, rfl, rfl, rfl⟩, rfl, rfl, by rw [hsome]; rfl, fun _ h => h, h.tallied⟩

theorem Counted.of_recorded (h : Counted crypto vs accepted) (hr : Recorded vs vote vs₁) :
    Counted crypto vs₁ accepted := by
  have htotal : vs₁.total = vs.total := by
    unfold total
    rw [hr.same.valSet]
  refine ⟨hr.tallied, fun key bv hbv => ⟨?_, fun i v hv => ?_⟩, fun v hv => ?_, fun v hv => ?_,
    fun b hb => ?_, fun b hb => h.voted b (hr.maj23 ▸ hb), fun hnone key bv hbv => ?_⟩
  · rw [hr.same.valSet]
    exact (h.byBlock key bv (hr.byBlock ▸ hbv)).tallied
  · obtain ⟨h₁, h₂, h₃, h₄⟩ := (h.byBlock key bv (hr.byBlock ▸ hbv)).stored i v hv
    exact ⟨h₁, h₂, h₃, hr.keeps i h₄⟩
  · rw [hr.byBlock]
    exact h.counted v hv
  · obtain ⟨val, hval⟩ := h.verified v hv
    exact ⟨val, hval.of_sameStep hr.same⟩
  · rw [hr.byBlock, htotal]
    exact h.majority b (hr.maj23 ▸ hb)
  · rw [htotal]
    exact h.below (hr.maj23 ▸ hnone) key bv (hr.byBlock ▸ hbv)

/-! ### Counting a vote for its block -/

variable {i : ℕ}

section

variable {bv : BlockVotes} (hnone : bv.votes vote.validatorIndex.toNat = none)

include hnone

theorem addVerifiedVote_of_none : bv.addVerifiedVote vote power = { bv with
    bitArray := update bv.bitArray vote.validatorIndex.toNat true
    votes := update bv.votes vote.validatorIndex.toNat (some vote)
    sum := bv.sum + power } := by
  unfold BlockVotes.addVerifiedVote
  dsimp only
  rw [hnone]

theorem addVerifiedVote_sum : (bv.addVerifiedVote vote power).sum = bv.sum + power := by
  rw [addVerifiedVote_of_none hnone]

theorem addVerifiedVote_votes : (bv.addVerifiedVote vote power).votes =
    update bv.votes vote.validatorIndex.toNat (some vote) := by
  rw [addVerifiedVote_of_none hnone]

/-- The vote itself, or one that was there. -/
theorem addVerifiedVote_votes_cases (h : (bv.addVerifiedVote vote power).votes i = some v) :
    i = vote.validatorIndex.toNat ∧ v = vote ∨ bv.votes i = some v := by
  rw [addVerifiedVote_votes hnone] at h
  exact (update_eq_some h).imp_right And.right

theorem addVerifiedVote_votes_self :
    (bv.addVerifiedVote vote power).votes vote.validatorIndex.toNat = some vote := by
  rw [addVerifiedVote_votes hnone, update_self]

theorem addVerifiedVote_votes_keeps (h : bv.votes i = some v) :
    (bv.addVerifiedVote vote power).votes i = some v := by
  rw [addVerifiedVote_votes hnone]
  exact update_of_none hnone h _

end

/-- The votes that a vote is counted with: those tracked for its block, or none yet. -/
structure Tracked (vs : VoteSet) (vote : Vote) (bv : BlockVotes) : Prop where
  tracked : vs.votesByBlock vote.blockID.key = some bv ∨
    vs.votesByBlock vote.blockID.key = none ∧ bv = { peerMaj23 := false }
  none : bv.votes vote.validatorIndex.toNat = none

variable {bv : BlockVotes}

theorem Counted.blockCounted (h : Counted crypto vs accepted) (ht : Tracked vs vote bv) :
    BlockCounted vs accepted vote.blockID.key bv := by
  rcases ht.tracked with htracked | ⟨-, rfl⟩
  · exact h.byBlock _ bv htracked
  · exact ⟨.empty _, fun i v hv => nomatch hv⟩

/-- One more vote for another block. -/
theorem BlockCounted.append (h : BlockCounted vs accepted key bv) (vote : Vote) :
    BlockCounted vs (accepted ++ [vote]) key bv :=
  ⟨h.tallied, fun i v hv => (h.stored i v hv).imp_left (List.mem_append_left _)⟩

/-- The votes for a block, one vote further. -/
theorem BlockCounted.add (h : BlockCounted vs accepted vote.blockID.key bv)
    (hnone : bv.votes vote.validatorIndex.toNat = none)
    (hi : vote.validatorIndex.toNat ∈ vs.valSet.indices)
    (hpower : power = vs.valSet.power vote.validatorIndex.toNat)
    (hhas : (vs.votes vote.validatorIndex.toNat).isSome = true) :
    BlockCounted vs (accepted ++ [vote]) vote.blockID.key (bv.addVerifiedVote vote power) := by
  constructor
  · rw [addVerifiedVote_of_none hnone, hpower]
    exact h.tallied.add hi hnone vote
  · intro i v hv
    rcases addVerifiedVote_votes_cases hnone hv with ⟨rfl, rfl⟩ | hv
    · exact ⟨List.mem_append_right _ (List.mem_singleton_self _), rfl, rfl, hhas⟩
    · exact (h.append vote).stored i v hv

/-- The votes for a block with a majority, or with an accepted vote, are still there in the updated
map, and have not become fewer. -/
theorem Tracked.update_of_some {bv' : BlockVotes} (ht : Tracked vs vote bv) (hpos : 0 ≤ power)
    {k : Bytes} (h : vs.votesByBlock k = some bv') :
    ∃ bv'', update vs.votesByBlock vote.blockID.key (some (bv.addVerifiedVote vote power)) k =
      some bv'' ∧ bv'.sum ≤ bv''.sum ∧ ∀ i v, bv'.votes i = some v → bv''.votes i = some v := by
  by_cases hk : k = vote.blockID.key
  · refine ⟨_, by rw [hk, update_self], ?_⟩
    rcases ht.tracked with htracked | ⟨hnone, -⟩
    · rw [hk, htracked] at h
      cases h
      refine ⟨?_, fun i v hv => addVerifiedVote_votes_keeps ht.none hv⟩
      rw [addVerifiedVote_sum ht.none]
      omega
    · rw [hk, hnone] at h
      cases h
  · exact ⟨bv', by rw [update_of_ne hk, h], le_rfl, fun _ _ hv => hv⟩

theorem sameStep_of_countVote (hvals : vs.valSet.Valid)
    (hcount : vs.countVote vote key power bv = .ok vs') : SameStep vs vs' := by
  rcases countVote_spec hvals hcount with ⟨-, -, -, rfl⟩ | ⟨-, rfl⟩
  · exact ⟨rfl, rfl, rfl, rfl, rfl, rfl⟩
  · exact ⟨rfl, rfl, rfl, rfl, rfl, rfl⟩

/-- **Counting a vote** for its block. -/
theorem Counted.count (hvals : vs.valSet.Valid) (h : Counted crypto vs accepted)
    (hverified : vs.Verified crypto vote val) (ht : Tracked vs vote bv)
    (hpower : power = vs.valSet.power vote.validatorIndex.toNat)
    (hhas : (vs.votes vote.validatorIndex.toNat).isSome = true)
    (hcount : vs.countVote vote vote.blockID.key power bv = .ok vs') :
    Counted crypto vs' (accepted ++ [vote]) := by
  have hpos : 0 < power := hpower ▸ hvals.power_pos hverified.mem_indices
  have hadd := (h.blockCounted ht).add ht.none hverified.mem_indices hpower hhas
  have hbyBlock : ∀ key bv', update vs.votesByBlock vote.blockID.key
      (some (bv.addVerifiedVote vote power)) key = some bv' →
        BlockCounted vs (accepted ++ [vote]) key bv' := by
    intro key bv' hbv'
    rcases update_eq_some hbv' with ⟨rfl, rfl⟩ | ⟨-, hbv'⟩
    · exact hadd
    · exact (h.byBlock key bv' hbv').append vote
  have hcounted : ∀ v ∈ accepted ++ [vote], ∃ bv', update vs.votesByBlock vote.blockID.key
      (some (bv.addVerifiedVote vote power)) v.blockID.key = some bv' ∧
        (bv'.votes v.validatorIndex.toNat).isSome = true := by
    intro v hv
    rcases List.mem_append.mp hv with hv | hv
    · obtain ⟨bv', hbv', hsome⟩ := h.counted v hv
      obtain ⟨w, hw⟩ := isSome_iff_exists.mp hsome
      obtain ⟨bv'', hbv'', -, hkeeps⟩ := ht.update_of_some hpos.le hbv'
      exact ⟨bv'', hbv'', by rw [hkeeps _ _ hw]; rfl⟩
    · rw [List.mem_singleton.mp hv]
      exact ⟨_, update_self .., by rw [addVerifiedVote_votes_self ht.none]; rfl⟩
  have hverified' : ∀ v ∈ accepted ++ [vote], ∃ val, vs'.Verified crypto v val := by
    intro v hv
    have hval : ∃ val, vs.Verified crypto v val := List.forall_mem_append.mpr
      ⟨h.verified, List.forall_mem_singleton.mpr ⟨val, hverified⟩⟩ v hv
    exact hval.imp fun _ hval => hval.of_sameStep (sameStep_of_countVote hvals hcount)
  rcases countVote_spec hvals hcount with ⟨-, hquorum, -, rfl⟩ | ⟨hcross, rfl⟩
  · -- the first majority: the canonical votes are those for the block, where there are any
    have hsome : ∀ i, ((bv.addVerifiedVote vote power).votes i <|> vs.votes i).isSome =
        (vs.votes i).isSome := by
      intro i
      cases hv : (bv.addVerifiedVote vote power).votes i with
      | none => rfl
      | some v => exact (hadd.stored i v hv).2.2.2.symm
    refine ⟨h.tallied.congr hsome, fun key bv' hbv' => ?_, hcounted, hverified',
      fun b hb => ?_, fun b hb => ⟨vote, ?_, some.inj hb⟩, fun hnone => nomatch hnone⟩
    · have hblock := hbyBlock key bv' hbv'
      refine ⟨hblock.tallied, fun i v hv => ?_⟩
      obtain ⟨h₁, h₂, h₃, h₄⟩ := hblock.stored i v hv
      exact ⟨h₁, h₂, h₃, (hsome i).trans h₄⟩
    · cases hb
      exact ⟨_, update_self .., hquorum⟩
    · exact List.mem_append_right _ (List.mem_singleton_self _)
  · refine ⟨h.tallied, fun key bv' hbv' => ?_, hcounted, hverified', fun b hb => ?_,
      fun b hb => ?_, fun hnone key bv' hbv' => ?_⟩
    · exact ⟨(hbyBlock key bv' hbv').tallied, (hbyBlock key bv' hbv').stored⟩
    · obtain ⟨bv', hbv', hlt⟩ := h.majority b hb
      obtain ⟨bv'', hbv'', hle, -⟩ := ht.update_of_some hpos.le hbv'
      refine ⟨bv'', hbv'', ?_⟩
      change 2 * vs.total < _
      omega
    · obtain ⟨v, hv, hvb⟩ := h.voted b hb
      exact ⟨v, List.mem_append_left _ hv, hvb⟩
    · rcases update_eq_some hbv' with ⟨rfl, rfl⟩ | ⟨-, hbv'⟩
      · by_contra hlt
        have hlt' := hcross (not_le.mp hlt) hnone
        rcases ht.tracked with htracked | ⟨-, rfl⟩
        · exact absurd (h.below hnone _ bv htracked) (not_le.mpr hlt')
        · have h0 : 0 ≤ vs.total := weight_nonneg hvals.power_nonneg
          change 2 * vs.total < 3 * 0 at hlt'
          omega
      · exact h.below hnone key bv' hbv'

/-! ### A call -/

/-- What a successful call of `addVote` did, when the vote was not refused: the vote was recorded, and
then dropped or counted. -/
inductive Added (crypto : Crypto) (vs : VoteSet) (vote : Vote) (vs' : VoteSet) : Bool → Prop where
  | dropped {val : Validator} {existing : Vote} (hverified : vs.Verified crypto vote val)
      (hrecorded : Recorded vs vote vs')
      (hrecord : vs.recordVote vote vote.blockID.key val.votingPower = .ok (vs', some existing))
      (hpeer : ∀ bv, vs.votesByBlock vote.blockID.key = some bv → bv.peerMaj23 = false) :
      Added crypto vs vote vs' false
  | counted {val : Validator} {vs₁ : VoteSet} {conflicting : Option Vote} {bv : BlockVotes}
      (hverified : vs.Verified crypto vote val) (hrecorded : Recorded vs vote vs₁)
      (hrecord : vs.recordVote vote vote.blockID.key val.votingPower = .ok (vs₁, conflicting))
      (htracked : Tracked vs₁ vote bv)
      (hcount : vs₁.countVote vote vote.blockID.key val.votingPower bv = .ok vs') :
      Added crypto vs vote vs' true

/-- **A call of `addVote`** changes nothing, or drops or counts a verified vote. -/
theorem Counted.addVote_cases (h : Counted crypto vs accepted) {added : Bool}
    {err : Option VoteError} (hadd : vs.addVote crypto vote = .ok (vs', added, err)) :
    vs' = vs ∧ added = false ∨ Added crypto vs vote vs' added := by
  rcases addVote_spec hadd with hrefused | ⟨val, conflicting, hverified, hget, hadd⟩
  · exact .inl hrefused
  right
  obtain ⟨vs₁, hrecord, hexit⟩ := addVerifiedVote_spec hadd
  have hr := h.record hverified.mem_indices (ValidatorSet.power_of_getElem? hverified.lookup).symm
    hrecord
  rw [hr.byBlock] at hexit
  rcases hexit with ⟨rfl, rfl, hsome, hpeer⟩ | ⟨rfl, bv, hcount, htracked⟩
  · obtain ⟨existing, rfl⟩ := isSome_iff_exists.mp hsome
    exact .dropped hverified hr hrecord hpeer
  · refine .counted hverified hr hrecord ⟨?_, ?_⟩ hcount
    · rw [hr.byBlock]
      exact htracked.imp And.left fun h => ⟨h.1, h.2.2⟩
    · rcases htracked with ⟨htracked, -⟩ | ⟨-, -, rfl⟩
      · exact (getVote_eq_none hget).2 bv htracked
      · rfl

theorem Added.counted_iff (hvals : vs.valSet.Valid) (h : Counted crypto vs accepted) {added : Bool}
    (hadd : Added crypto vs vote vs' added) :
    SameStep vs vs' ∧ Counted crypto vs' (if added then accepted ++ [vote] else accepted) := by
  cases hadd with
  | dropped _ hr _ _ => exact ⟨hr.same, h.of_recorded hr⟩
  | counted hverified hr _ ht hcount =>
    have hvals₁ := hr.same.valSet ▸ hvals
    have hpower := ValidatorSet.power_of_getElem? hverified.lookup
    rw [← hr.same.valSet] at hpower
    exact ⟨hr.same.trans (sameStep_of_countVote hvals₁ hcount),
      (h.of_recorded hr).count hvals₁ (hverified.of_sameStep hr.same) ht hpower.symm hr.has hcount⟩

/-- A majority stays. -/
theorem Added.maj23 (hvals : vs.valSet.Valid) {added : Bool} (hadd : Added crypto vs vote vs' added)
    (hb : vs.maj23 = some b) :
    vs'.maj23 = some b := by
  cases hadd with
  | dropped _ hr _ _ => rw [hr.maj23, hb]
  | counted _ hr _ _ hcount =>
    have hb₁ := hr.maj23.trans hb
    rcases countVote_spec (hr.same.valSet ▸ hvals) hcount with ⟨-, -, hnone, -⟩ | ⟨-, rfl⟩
    · rw [hb₁] at hnone
      cases hnone
    · exact hb₁

variable {byBlock : Bytes → Option BlockVotes} {peers : String → Option BlockID}

/-- **The claim of a peer** changes no count. -/
theorem Counted.claim (hvals : vs.valSet.Valid) (h : Counted crypto vs accepted)
    (hclaimed : ∀ key, Claimed (vs.votesByBlock key) (byBlock key)) :
    Counted crypto { vs with peerMaj23s := peers, votesByBlock := byBlock } accepted := by
  refine ⟨h.tallied, fun key bv hbv => ?_, fun v hv => ?_, fun v hv => ?_, fun b hb => ?_,
    h.voted, fun hnone key bv hbv => ?_⟩
  · rcases (hclaimed key).to_some hbv with rfl | ⟨bv', hbv', hvotes, hbits, hsum⟩
    · exact ⟨.empty _, fun i v hv => nomatch hv⟩
    · have hblock := h.byBlock key bv' hbv'
      exact ⟨by rw [hvotes, hbits, hsum]; exact hblock.tallied,
        by rw [hvotes]; exact hblock.stored⟩
  · obtain ⟨bv, hbv, hsome⟩ := h.counted v hv
    obtain ⟨bv', hbv', hvotes, -⟩ := (hclaimed _).of_some hbv
    exact ⟨bv', hbv', by rwa [hvotes]⟩
  · exact (h.verified v hv).imp fun _ hval => hval.of_sameStep ⟨rfl, rfl, rfl, rfl, rfl, rfl⟩
  · obtain ⟨bv, hbv, hlt⟩ := h.majority b hb
    obtain ⟨bv', hbv', -, hsum⟩ := (hclaimed _).of_some hbv
    exact ⟨bv', hbv', by rw [hsum]; exact hlt⟩
  · rcases (hclaimed key).to_some hbv with rfl | ⟨bv', hbv', -, -, hsum⟩
    · have h0 : 0 ≤ vs.total := weight_nonneg hvals.power_nonneg
      change 3 * 0 ≤ 2 * vs.total
      omega
    · rw [hsum]
      exact h.below hnone key bv' hbv'

/-! ### Canonical votes and the votes for their blocks -/

/-- Every canonical vote is stored among the votes for its block. -/
def Owned (vs : VoteSet) : Prop :=
  ∀ i v, vs.votes i = some v →
    ∃ bv, vs.votesByBlock v.blockID.key = some bv ∧ bv.votes i = some v

/-- The vote would become the canonical one of its validator, but not be stored for its block: the
block has the majority, the validator has voted for another one, and no peer has claimed a majority
for it. -/
def Orphans (vs : VoteSet) (vote : Vote) : Prop :=
  vs.maj23.map BlockID.key = some vote.blockID.key ∧
    (∃ existing ∈ vs.votes vote.validatorIndex.toNat, existing.blockID ≠ vote.blockID) ∧
    ∀ bv ∈ vs.votesByBlock vote.blockID.key, bv.peerMaj23 = false

instance (vs : VoteSet) (vote : Vote) : Decidable (vs.Orphans vote) :=
  inferInstanceAs (Decidable (_ ∧ _ ∧ _))

theorem recordVote_votes_cases (hrecord : vs.recordVote vote key power = .ok (vs₁, conflicting))
    (hv : vs₁.votes i = some v) :
    i = vote.validatorIndex.toNat ∧ v = vote ∨ vs.votes i = some v := by
  rcases recordVote_spec hrecord with ⟨-, -, rfl⟩ | ⟨-, -, -, -, ⟨-, rfl⟩ | ⟨-, rfl⟩⟩
  · exact (update_eq_some hv).imp_right And.right
  · exact (update_eq_some hv).imp_right And.right
  · exact .inr hv

/-- Counting a vote keeps the canonical votes stored, the new one included. -/
theorem Owned.count (hvals : vs.valSet.Valid) (ht : Tracked vs vote bv) (hpos : 0 ≤ power)
    (hstored : ∀ i v, (bv.addVerifiedVote vote power).votes i = some v →
      v.blockID.key = vote.blockID.key)
    (hold : ∀ i v, vs.votes i = some v → i = vote.validatorIndex.toNat ∧ v = vote ∨
      ∃ bv', vs.votesByBlock v.blockID.key = some bv' ∧ bv'.votes i = some v)
    (hcount : vs.countVote vote vote.blockID.key power bv = .ok vs') : vs'.Owned := by
  have hkeep : ∀ i v, vs.votes i = some v → ∃ bv', update vs.votesByBlock vote.blockID.key
      (some (bv.addVerifiedVote vote power)) v.blockID.key = some bv' ∧ bv'.votes i = some v := by
    intro i v hv
    rcases hold i v hv with ⟨rfl, rfl⟩ | ⟨bv', hbv', hi⟩
    · exact ⟨_, update_self .., addVerifiedVote_votes_self ht.none⟩
    · obtain ⟨bv'', hbv'', -, hvotes⟩ := ht.update_of_some hpos hbv'
      exact ⟨bv'', hbv'', hvotes i v hi⟩
  rcases countVote_spec hvals hcount with ⟨-, -, -, rfl⟩ | ⟨-, rfl⟩
  · intro i v hv
    rcases hcase : (bv.addVerifiedVote vote power).votes i with _ | w
    · refine hkeep i v ?_
      change ((bv.addVerifiedVote vote power).votes i <|> vs.votes i) = some v at hv
      rwa [hcase] at hv
    · change ((bv.addVerifiedVote vote power).votes i <|> vs.votes i) = some v at hv
      rw [hcase] at hv
      cases hv
      refine ⟨bv.addVerifiedVote vote power, ?_, hcase⟩
      rw [hstored i v hcase]
      exact update_self ..
  · exact hkeep

theorem Owned.added (hvals : vs.valSet.Valid) (h : Counted crypto vs accepted) (ho : vs.Owned)
    {added : Bool} (hadd : Added crypto vs vote vs' added) (horphans : ¬vs.Orphans vote) :
    vs'.Owned := by
  cases hadd with
  | dropped _ _ hrecord hpeer =>
    rcases recordVote_spec hrecord with ⟨-, hnone, -⟩ |
      ⟨existing, hexisting, -, hne, ⟨hmaj, -⟩ | ⟨-, rfl⟩⟩
    · cases hnone
    · exact absurd ⟨hmaj, ⟨existing, hexisting, hne⟩, hpeer⟩ horphans
    · exact ho
  | counted hverified hr hrecord ht hcount =>
    have hpower := ValidatorSet.power_of_getElem? hverified.lookup
    have hpos := hvals.power_pos hverified.mem_indices
    have hblock := ((h.of_recorded hr).blockCounted ht).add ht.none
      (hr.same.valSet ▸ hverified.mem_indices) (by rw [hr.same.valSet, hpower]) hr.has
    refine Owned.count (hr.same.valSet ▸ hvals) ht (hpower ▸ hpos.le)
      (fun i v hv => (hblock.stored i v hv).2.1) (fun i v hv => ?_) hcount
    rcases recordVote_votes_cases hrecord hv with hnew | hold
    · exact .inl hnew
    · rw [hr.byBlock]
      exact .inr (ho i v hold)

theorem Owned.claim (ho : vs.Owned) (hclaimed : ∀ key, Claimed (vs.votesByBlock key) (byBlock key))
    :Owned { vs with peerMaj23s := peers, votesByBlock := byBlock } := by
  intro i v hv
  obtain ⟨bv, hbv, hi⟩ := ho i v hv
  obtain ⟨bv', hbv', hvotes, -⟩ := (hclaimed _).of_some hbv
  exact ⟨bv', hbv', by rwa [hvotes]⟩

/-! ### The documented invariants -/

/-- What the documentation of `VoteSet` says of the two places where votes are stored. -/
structure Consistent (vs : VoteSet) : Prop where
  tallied : Tallied vs.valSet vs.votes vs.votesBitArray vs.sum
  blockTallied : ∀ key bv, vs.votesByBlock key = some bv →
    Tallied vs.valSet bv.votes bv.bitArray bv.sum
  blockID : ∀ (b : BlockID) bv, b.WellFormed → vs.votesByBlock b.key = some bv →
    ∀ i v, bv.votes i = some v → v.blockID = b
  key : ∀ key bv, vs.votesByBlock key = some bv → ∀ i v, bv.votes i = some v → v.blockID.key = key
  owned : vs.Owned
  sum_le : vs.sum ≤ vs.total
  blockSum_le : ∀ key bv, vs.votesByBlock key = some bv → bv.sum ≤ vs.total

end VoteSet

namespace Collection

variable {crypto : Crypto} {c c' : Collection} {call : Call} {valSet : ValidatorSet}

/-- What holds in every state of a run. -/
structure Good (crypto : Crypto) (valSet : ValidatorSet) (c : Collection) : Prop where
  counted : c.set.Counted crypto c.accepted
  valSet : c.set.valSet = valSet

theorem good_start {chainID : String} {height round : ℤ} {type : SignedMsgType} {ext : Bool}
    {s : VoteSet} (hnew : newVoteSet chainID height round type valSet ext = .ok s) :
    Good crypto valSet ⟨s, []⟩ :=
  ⟨VoteSet.counted_newVoteSet hnew, by rw [(newVoteSet_eq hnew).2]⟩

/-- What a call that does not panic has done. -/
inductive Called (crypto : Crypto) (c : Collection) : Call → Collection → Prop where
  | refused (vote : Vote) : Called crypto c (.addVote vote) c
  | added {vote : Vote} {vs : VoteSet} {added : Bool} (h : c.set.Added crypto vote vs added) :
      Called crypto c (.addVote vote) ⟨vs, if added then c.accepted ++ [vote] else c.accepted⟩
  | claimed {peerID : String} {blockID : BlockID} {peers : String → Option BlockID}
      {byBlock : Bytes → Option BlockVotes}
      (h : ∀ key, VoteSet.Claimed (c.set.votesByBlock key) (byBlock key)) :
      Called crypto c (.setPeerMaj23 peerID blockID)
        ⟨{ c.set with peerMaj23s := peers, votesByBlock := byBlock }, c.accepted⟩

theorem Good.called (h : Good crypto valSet c) (hnext : next crypto c call = some c') :
    Called crypto c call c' := by
  cases call with
  | addVote vote =>
    unfold Collection.next at hnext
    dsimp only at hnext
    split at hnext
    · cases hnext
    rename_i set added err hadd
    cases hnext
    rcases h.counted.addVote_cases hadd with ⟨rfl, rfl⟩ | hadded
    · exact .refused vote
    · exact .added hadded
  | setPeerMaj23 peerID blockID =>
    obtain ⟨peers, byBlock, heq, hclaimed⟩ := c.set.setPeerMaj23_spec peerID blockID
    cases hnext
    rw [heq]
    exact .claimed hclaimed

/-- **One call** keeps the counts and the majority. -/
theorem Good.next (hvals : valSet.Valid) (h : Good crypto valSet c)
    (hnext : next crypto c call = some c') :
    Good crypto valSet c' ∧ ∀ b, c.set.maj23 = some b → c'.set.maj23 = some b := by
  have hvals' := h.valSet ▸ hvals
  cases h.called hnext with
  | refused vote => exact ⟨h, fun _ hb => hb⟩
  | added hadded =>
    obtain ⟨hsame, hcounted⟩ := hadded.counted_iff hvals' h.counted
    exact ⟨⟨hcounted, hsame.valSet.trans h.valSet⟩, fun b hb => hadded.maj23 hvals' hb⟩
  | claimed hclaimed => exact ⟨⟨h.counted.claim hvals' hclaimed, h.valSet⟩, fun _ hb => hb⟩

theorem Good.sameStep (hvals : valSet.Valid) (h : Good crypto valSet c)
    (hnext : Collection.next crypto c call = some c') : VoteSet.SameStep c.set c'.set := by
  cases h.called hnext with
  | added hadded => exact (hadded.counted_iff (h.valSet ▸ hvals) h.counted).1
  | _ => exact ⟨rfl, rfl, rfl, rfl, rfl, rfl⟩

/-- The calls under which the documented invariants hold. -/
def Proper (c : Collection) : Call → Prop
  | .addVote vote => vote.blockID.WellFormed ∧ ¬c.set.Orphans vote
  | .setPeerMaj23 _ _ => True

instance (c : Collection) : ∀ call, Decidable (Proper c call)
  | .addVote _ => inferInstanceAs (Decidable (_ ∧ _))
  | .setPeerMaj23 _ _ => inferInstanceAs (Decidable True)

/-- **The documented invariants** hold in every state of every run in which all votes are for nil or
for a complete block id and none is orphaned. -/
theorem voteSet_consistent {chainID : String} {height round : ℤ} {type : SignedMsgType} {ext : Bool}
    {s : VoteSet} (hvals : valSet.Valid)
    (hnew : newVoteSet chainID height round type valSet ext = .ok s)
    (hrun : Steps (next crypto) Proper (.mk s []) c) : c.set.Consistent := by
  have hstart : s.Owned := by
    rw [(newVoteSet_eq hnew).2]
    rintro i v ⟨⟩
  obtain ⟨hgood, hwf, howned⟩ : Good crypto valSet c ∧
      (∀ v ∈ c.accepted, v.blockID.WellFormed) ∧ c.set.Owned := by
    refine hrun.invariant ⟨good_start hnew, nofun, hstart⟩ ?_
    intro c call c' ⟨hgood, hwf, howned⟩ hproper hnext
    refine ⟨(hgood.next hvals hnext).1, ?_⟩
    cases hgood.called hnext with
    | refused vote => exact ⟨hwf, howned⟩
    | added hadded =>
      refine ⟨?_, howned.added (hgood.valSet ▸ hvals) hgood.counted hadded hproper.2⟩
      dsimp only
      split
      · exact List.forall_mem_append.mpr ⟨hwf, List.forall_mem_singleton.mpr hproper.1⟩
      · exact hwf
    | claimed hclaimed => exact ⟨hwf, howned.claim hclaimed⟩
  have hvals' := hgood.valSet ▸ hvals
  have hcounted := hgood.counted
  refine ⟨hcounted.tallied, fun key bv hbv => (hcounted.byBlock key bv hbv).tallied,
    fun b bv hb hbv i v hv => ?_, fun key bv hbv i v hv => ((hcounted.byBlock key bv hbv).stored
      i v hv).2.1, howned, hcounted.tallied.sum_le hvals',
    fun key bv hbv => (hcounted.byBlock key bv hbv).tallied.sum_le hvals'⟩
  obtain ⟨haccepted, hkey, -⟩ := (hcounted.byBlock _ bv hbv).stored i v hv
  exact BlockID.key_injOn (hwf v haccepted) hb hkey

/-! ### Four validators -/

/-- Signatures that always verify, and keys that are their own address. -/
def plainCrypto : Crypto where
  address key := key.bytes
  verifySignature _ _ _ := true
  encodeVote _ := some []
  encodeVoteExtension _ := []
  encodeProposal _ := some []

/-- Four validators of power one. -/
def fourValidators : ValidatorSet where
  validators := [1, 2, 3, 4].map fun i => ⟨[i], some ⟨"", [i]⟩, 1, 0⟩
  totalVotingPower := 4

theorem fourValidators_valid : fourValidators.Valid := ⟨by decide, by decide⟩

/-- A complete id, of which all bytes are the same. -/
def completeID (byte : UInt8) : BlockID :=
  ⟨List.replicate 32 byte, ⟨1, List.replicate 32 byte⟩⟩

/-- The prevote of one of the four. -/
def prevote (index : UInt8) (blockID : BlockID) : Vote where
  type := .prevote
  height := 1
  round := 0
  blockID := blockID
  validatorAddress := [index + 1]
  validatorIndex := index.toNat

/-- The vote set that the four vote in. -/
def fourVotes : VoteSet where
  chainID := ""
  height := 1
  round := 0
  signedMsgType := .prevote
  valSet := fourValidators

theorem newVoteSet_four : newVoteSet "" 1 0 .prevote fourValidators false = .ok fourVotes := rfl

theorem voteSet_consistent_claimed : ∃ c : Collection,
    c.set.votes 3 = some (prevote 3 (completeID 1)) ∧ c.set.Consistent := by
  obtain ⟨c, hrun, hvote⟩ := exists_of_execWhere (next plainCrypto) Proper ⟨fourVotes, []⟩
    [.addVote (prevote 3 (completeID 2)), .addVote (prevote 0 (completeID 1)),
      .addVote (prevote 1 (completeID 1)), .addVote (prevote 2 (completeID 1)),
      .setPeerMaj23 "peer" (completeID 1), .addVote (prevote 3 (completeID 1))]
    (fun c => c.set.votes 3 = some (prevote 3 (completeID 1))) (by decide +kernel)
  exact ⟨c, hvote, voteSet_consistent fourValidators_valid newVoteSet_four hrun⟩

/-- **A canonical vote that is not stored for its block.** One of the four votes for another block
than the others, and when these have reached the majority, for the same as they. -/
theorem canonical_vote_orphaned : ∃ c,
    Reachable (next plainCrypto) (.mk fourVotes []) c ∧ ¬c.set.Owned := by
  obtain ⟨c, hrun, hvote, hbv⟩ := exists_of_execWhere (next plainCrypto)
    (fun _ _ => True) ⟨fourVotes, []⟩
    [.addVote (prevote 3 (completeID 2)), .addVote (prevote 0 (completeID 1)),
      .addVote (prevote 1 (completeID 1)), .addVote (prevote 2 (completeID 1)),
      .addVote (prevote 3 (completeID 1))]
    (fun c => c.set.votes 3 = some (prevote 3 (completeID 1)) ∧
      (c.set.votesByBlock (completeID 1).key).bind (fun bv => bv.votes 3) = none)
    (by decide +kernel)
  refine ⟨c, hrun, fun howned => ?_⟩
  obtain ⟨bv, hbv', hsome⟩ := howned 3 _ hvote
  change c.set.votesByBlock (completeID 1).key = some bv at hbv'
  rw [hbv', bind_some, hsome] at hbv
  cases hbv

/-! ### Majorities -/

/-- The validators of which a vote for a block was accepted. -/
def votersFor (valSet : ValidatorSet) (accepted : List Vote) (b : BlockID) : Finset ℕ :=
  valSet.indices.filter fun i => ∃ v ∈ accepted, v.validatorIndex.toNat = i ∧ v.blockID = b

/-- The validators of which a vote was accepted. -/
def votersIn (valSet : ValidatorSet) (accepted : List Vote) : Finset ℕ :=
  valSet.indices.filter fun i => ∃ v ∈ accepted, v.validatorIndex.toNat = i

/-- The validators of which a vote for a block with a key was accepted. -/
def votersUnder (valSet : ValidatorSet) (accepted : List Vote) (key : Bytes) : Finset ℕ :=
  valSet.indices.filter fun i => ∃ v ∈ accepted, v.validatorIndex.toNat = i ∧ v.blockID.key = key

variable {key : Bytes}

section

variable (h : Good crypto valSet c)

include h

/-- The votes that are stored under a key are those of the validators that voted under it. -/
theorem Good.voters_eq {bv : BlockVotes} (hbv : c.set.votesByBlock key = some bv) :
    voters valSet bv.votes = votersUnder valSet c.accepted key := by
  refine filter_congr fun i _ => ⟨fun hi => ?_, ?_⟩
  · obtain ⟨v, hv⟩ := isSome_iff_exists.mp hi
    obtain ⟨h₁, h₂, h₃, -⟩ := (h.counted.byBlock key bv hbv).stored i v hv
    exact ⟨v, h₁, h₃, h₂⟩
  · rintro ⟨v, hv, rfl, rfl⟩
    obtain ⟨bv', hbv', hsome⟩ := h.counted.counted v hv
    rw [hbv] at hbv'
    cases hbv'
    exact hsome

theorem Good.blockSum_eq {bv : BlockVotes} (hbv : c.set.votesByBlock key = some bv) :
    bv.sum = weight valSet.power (votersUnder valSet c.accepted key) := by
  rw [← h.voters_eq hbv, ← h.valSet]
  exact (h.counted.byBlock key bv hbv).tallied.sum

theorem Good.total_eq : c.set.total = weight valSet.power valSet.indices := by
  rw [VoteSet.total, h.valSet]

/-- A majority is a quorum of validators that voted under its key. -/
theorem Good.quorum_of_maj23 (hb : c.set.maj23 = some b) :
    Quorum valSet.indices valSet.power (votersUnder valSet c.accepted b.key) := by
  obtain ⟨bv, hbv, hlt⟩ := h.counted.majority b hb
  rw [h.total_eq, h.blockSum_eq hbv] at hlt
  exact ⟨filter_subset _ _, hlt⟩

/-- Votes that were accepted are for ids that can be signed. -/
theorem Good.validateBasic (hv : v ∈ c.accepted) : v.blockID.validateBasic = true := by
  obtain ⟨val, hval⟩ := h.counted.verified v hv
  obtain ⟨pubKey, -, hverify⟩ := VoteSet.verify_of_verifyVote hval.verify
  exact (Vote.of_verify_eq_none hverify).2.1

/-- For a well-formed id, to vote under its key is to vote for it. -/
theorem Good.votersUnder_eq (hb : b.WellFormed) :
    votersUnder valSet c.accepted b.key = votersFor valSet c.accepted b := by
  refine filter_congr fun i _ => ⟨?_, ?_⟩
  · rintro ⟨v, hv, hi, hkey⟩
    exact ⟨v, hv, hi, BlockID.eq_of_key_eq hb (h.validateBasic hv) hkey⟩
  · rintro ⟨v, hv, hi, rfl⟩
    exact ⟨v, hv, hi, rfl⟩

end

/-- Enough votes are a majority. -/
theorem Good.maj23_of_quorum (hvals : valSet.Valid) (h : Good crypto valSet c)
    (hq : Quorum valSet.indices valSet.power (votersUnder valSet c.accepted key)) :
    c.set.maj23.isSome = true := by
  by_contra hnone
  -- someone voted under the key, so it is tracked
  obtain ⟨i, hi, -⟩ := hq.exists_common hq hvals.power_nonneg
  obtain ⟨-, v, hv, -, rfl⟩ := mem_filter.mp hi
  obtain ⟨bv, hbv, -⟩ := h.counted.counted v hv
  have hle := h.counted.below (not_isSome_iff_eq_none.mp hnone) _ bv hbv
  rw [h.total_eq, h.blockSum_eq hbv] at hle
  exact absurd hq.two_thirds (not_lt.mpr hle)

/-- If nobody voted for two blocks, the majority is for the block that has a quorum. -/
theorem Good.maj23_eq (hvals : valSet.Valid) (h : Good crypto valSet c) {b' : BlockID}
    (hb : b.WellFormed) (hq : Quorum valSet.indices valSet.power (votersFor valSet c.accepted b))
    (hone : ∀ v ∈ c.accepted, ∀ w ∈ c.accepted,
      v.validatorIndex.toNat = w.validatorIndex.toNat → v.blockID = w.blockID)
    (hb' : c.set.maj23 = some b') : b' = b := by
  obtain ⟨i, hi, hi'⟩ := hq.exists_common (h.quorum_of_maj23 hb') hvals.power_nonneg
  obtain ⟨-, v, hv, hvi, rfl⟩ := mem_filter.mp hi
  obtain ⟨-, w, hw, hwi, hkey⟩ := mem_filter.mp hi'
  obtain ⟨u, hu, rfl⟩ := h.counted.voted b' hb'
  rw [hone w hw v hv (hwi.trans hvi.symm)] at hkey
  exact BlockID.eq_of_key_eq hb (h.validateBasic hu) hkey.symm

theorem votersFor_subset (b : BlockID) :
    votersFor valSet c.accepted b ⊆ votersUnder valSet c.accepted b.key := by
  intro i hi
  obtain ⟨hmem, v, hv, hvi, rfl⟩ := mem_filter.mp hi
  exact mem_filter.mpr ⟨hmem, v, hv, hvi, rfl⟩

/-- Those that voted at all are a quorum once there is a majority. -/
theorem Good.quorum_votersIn (hvals : valSet.Valid) (h : Good crypto valSet c)
    (hb : c.set.maj23 = some b) :
    Quorum valSet.indices valSet.power (votersIn valSet c.accepted) := by
  refine (h.quorum_of_maj23 hb).mono hvals.power_nonneg (fun i hi => ?_) (filter_subset _ _)
  obtain ⟨hmem, v, hv, hvi, -⟩ := mem_filter.mp hi
  exact mem_filter.mpr ⟨hmem, v, hv, hvi⟩

theorem Good.run (hvals : valSet.Valid) (h : Good crypto valSet c)
    (hrun : Reachable (Collection.next crypto) c c') :
    Good crypto valSet c' ∧ ∀ b, c.set.maj23 = some b → c'.set.maj23 = some b := by
  refine Steps.invariant hrun ⟨h, fun _ hb => hb⟩ ?_
  intro c₁ call c₂ ⟨hgood, hmaj⟩ _ hnext
  obtain ⟨hgood', hmaj'⟩ := hgood.next hvals hnext
  exact ⟨hgood', fun b hb => hmaj' b (hmaj b hb)⟩

/-- **A majority is sound, stable and complete**, whatever the order of the calls. If the majority is
for nil or for a complete id, validators with more than two thirds of the power have each had a
verified vote for exactly that id accepted. A majority never changes. As soon as the votes accepted
for an id have more than two thirds of the power there is a majority, and it is for that id if no
validator voted for two. And if two vote sets of the same validators have different majorities,
validators with more than a third of the power voted in both. -/
theorem majority_sound_stable_complete (hvals : valSet.Valid) {chainID : String} {height round : ℤ}
    {type : SignedMsgType} {ext : Bool} {s : VoteSet}
    (hnew : newVoteSet chainID height round type valSet ext = .ok s)
    (hrun : Reachable (next crypto) (.mk s []) c) :
    (∀ b, c.set.maj23 = some b → b.WellFormed →
      Quorum valSet.indices valSet.power (votersFor valSet c.accepted b)) ∧
    (∀ v ∈ c.accepted, ∃ val, c.set.Verified crypto v val) ∧
    (∀ b c', c.set.maj23 = some b → Reachable (next crypto) c c' → c'.set.maj23 = some b) ∧
    (∀ b, Quorum valSet.indices valSet.power (votersFor valSet c.accepted b) →
      c.set.maj23.isSome = true ∧ (b.WellFormed →
        (∀ v ∈ c.accepted, ∀ w ∈ c.accepted,
          v.validatorIndex.toNat = w.validatorIndex.toNat → v.blockID = w.blockID) →
        c.set.maj23 = some b)) ∧
    (∀ chainID' height' round' type' ext' s' c' b b',
      newVoteSet chainID' height' round' type' valSet ext' = .ok s' →
      Reachable (next crypto) (.mk s' []) c' → c.set.maj23 = some b → c'.set.maj23 = some b' →
      b ≠ b' → weight valSet.power valSet.indices <
        3 * weight valSet.power (votersIn valSet c.accepted ∩ votersIn valSet c'.accepted)) := by
  have hgood := ((good_start hnew).run hvals hrun).1
  have hsome : ∀ b, Quorum valSet.indices valSet.power (votersFor valSet c.accepted b) →
      c.set.maj23.isSome = true := fun b hq => hgood.maj23_of_quorum hvals
    (hq.mono hvals.power_nonneg (votersFor_subset b) (filter_subset _ _))
  refine ⟨fun b hb hwf => ?_, hgood.counted.verified, fun b c' hb hrun' => ?_,
    fun b hq => ⟨hsome b hq, fun hwf hone => ?_⟩, fun _ _ _ _ _ s' c' b b' hnew' hrun' hb hb' _ => ?_⟩
  · rw [← hgood.votersUnder_eq hwf]
    exact hgood.quorum_of_maj23 hb
  · exact (hgood.run hvals hrun').2 b hb
  · obtain ⟨b', hb'⟩ := isSome_iff_exists.mp (hsome b hq)
    rw [hb', hgood.maj23_eq hvals hwf hq hone hb']
  · have hgood' := ((good_start hnew').run hvals hrun').1
    exact (hgood.quorum_votersIn hvals hb).inter (hgood'.quorum_votersIn hvals hb')
      hvals.power_nonneg

theorem majority_of_three : ∃ c : Collection, c.set.maj23 = some (completeID 1) ∧
    Quorum fourValidators.indices fourValidators.power
      (votersFor fourValidators c.accepted (completeID 1)) := by
  obtain ⟨c, hrun, hmaj⟩ := exists_of_execWhere (next plainCrypto) (fun _ _ => True) ⟨fourVotes, []⟩
    [.addVote (prevote 0 (completeID 1)), .addVote (prevote 1 (completeID 1)),
      .addVote (prevote 2 (completeID 1))]
    (fun c => c.set.maj23 = some (completeID 1)) (by decide +kernel)
  exact ⟨c, hmaj, (majority_sound_stable_complete fourValidators_valid newVoteSet_four hrun).1 _ hmaj
    (by decide)⟩

/-- Two ids that can be signed and have the same key: one has only a hash and a number of parts, and
the other only the hash of a part set header. -/
def mixedIDs : BlockID × BlockID :=
  (⟨[], ⟨0, List.replicate 30 1 ++ [0x08, 1]⟩⟩, ⟨0x12 :: 0x20 :: List.replicate 30 1, ⟨1, []⟩⟩)

/-- **A majority of votes for two malformed ids with the same key.** Two of the four vote for the id
that gets it. -/
theorem majority_of_mixed_votes : ∃ c, Reachable (next plainCrypto) (.mk fourVotes []) c ∧
    c.set.maj23 = some mixedIDs.2 ∧ ¬Quorum fourValidators.indices fourValidators.power
      (votersFor fourValidators c.accepted mixedIDs.2) := by
  obtain ⟨c, hrun, hmaj, hvoters⟩ := exists_of_execWhere (next plainCrypto)
    (fun _ _ => True) ⟨fourVotes, []⟩
    [.addVote (prevote 0 mixedIDs.1), .addVote (prevote 1 mixedIDs.2),
      .addVote (prevote 2 mixedIDs.2)]
    (fun c => c.set.maj23 = some mixedIDs.2 ∧ 3 * weight fourValidators.power
      (votersFor fourValidators c.accepted mixedIDs.2) ≤
        2 * weight fourValidators.power fourValidators.indices) (by decide +kernel)
  exact ⟨c, hrun, hmaj, fun hq => absurd hq.two_thirds (not_lt.mpr hvoters)⟩

end Collection

end CometBFT.Types
