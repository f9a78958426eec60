import CometBFT.Types.Completeness
import CometBFT.Types.ExtendedCommit

/-!
# From votes to a commit and back

When a block is committed, `MakeExtendedCommit` makes a commit of the canonical precommits, and after a
restart `ToVoteSet` or `ToExtendedVoteSet` (`types/block.go`) makes a vote set of that commit, in which
every signature must be added without an error.

A validator may have signed several precommits. The canonical vote is then the first one, until there
is a majority: from then on the votes for the block that has it are the canonical ones, and only by a
vote for that block another one is replaced. So the votes that the majority consists of are in the
commit.

## Main results

* `Collection.settled_run` — the canonical votes for the block with the majority have the majority
* `Precommits.makeExtendedCommit_eq` — what the commit is
* `VoteSet.addSigs_spec` — signatures that are valid can be added to a new vote set
-/

namespace CometBFT.Types

open Function List

/-! ### The canonical votes for the majority -/

theorem Vote.wellFormed_of_validateBasic {vote : Vote} (h : vote.validateBasic = true) :
    vote.blockID.WellFormed :=
  (of_decide_eq_true h).2.2.2.2.1

namespace VoteSet

variable {crypto : Crypto} {vs vs' vs₁ : VoteSet} {accepted : List Vote} {vote : Vote} {b : BlockID}

/-- The validators whose canonical vote is for a block. -/
def leaders (vs : VoteSet) (b : BlockID) : Finset ℕ :=
  vs.valSet.indices.filter fun i => (vs.votes i).map Vote.blockID = some b

/-- What is kept if all votes pass `ValidateBasic`. -/
structure Settled (vs : VoteSet) (accepted : List Vote) : Prop where
  basic : ∀ v ∈ accepted, v.validateBasic = true
  canonical : ∀ i v, vs.votes i = some v → v.validateBasic = true
  leading : ∀ b, vs.maj23 = some b → Quorum vs.valSet.indices vs.valSet.power (vs.leaders b)

theorem Counted.wellFormed_maj23 (h : Counted crypto vs accepted) (hs : vs.Settled accepted)
    (hb : vs.maj23 = some b) : b.WellFormed := by
  obtain ⟨v, hv, rfl⟩ := h.voted b hb
  exact Vote.wellFormed_of_validateBasic (hs.basic v hv)

/-- Recording a vote replaces no canonical vote for the block with the majority. -/
theorem leaders_subset_of_recordVote {power : ℤ} {conflicting : Option Vote} (hb : b.WellFormed)
    (hvote : vote.blockID.WellFormed) (hmaj : vs.maj23 = some b)
    (hrecord : vs.recordVote vote vote.blockID.key power = .ok (vs₁, conflicting)) :
    vs.leaders b ⊆ vs₁.leaders b := by
  intro i hi
  obtain ⟨hmem, hleads⟩ := Finset.mem_filter.mp hi
  obtain ⟨v, hv, rfl⟩ := Option.map_eq_some_iff.mp hleads
  have hother : i ≠ vote.validatorIndex.toNat →
      (update vs.votes vote.validatorIndex.toNat (some vote) i).map Vote.blockID = some v.blockID := by
    intro hne
    rw [update_of_ne hne, hleads]
  rcases recordVote_spec hrecord with ⟨hnone, -, rfl⟩ | ⟨existing, hex, -, hne, ⟨hkey, rfl⟩ | ⟨-, rfl⟩⟩
  · refine Finset.mem_filter.mpr ⟨hmem, hother ?_⟩
    rintro rfl
    cases hnone.symm.trans hv
  · refine Finset.mem_filter.mpr ⟨hmem, hother ?_⟩
    rintro rfl
    cases hex.symm.trans hv
    -- the vote is for the block with the majority, as the one that it replaces
    rw [hmaj, Option.map_some] at hkey
    exact hne (BlockID.key_injOn hb hvote (Option.some.inj hkey))
  · exact hi

theorem leaders_quorum_of_subset (hvals : vs.valSet.Valid) (hsame : SameStep vs vs')
    (h : Quorum vs.valSet.indices vs.valSet.power (vs.leaders b))
    (hsub : vs.leaders b ⊆ vs'.leaders b) :
    Quorum vs'.valSet.indices vs'.valSet.power (vs'.leaders b) := by
  have hle : vs'.leaders b ⊆ vs.valSet.indices := by
    rw [← hsame.valSet]
    exact Finset.filter_subset _ _
  rw [hsame.valSet]
  exact h.mono hvals.power_nonneg hsub hle

/-- When the majority is reached, the votes it consists of become the canonical ones. -/
theorem leading_of_countVote {bv : BlockVotes} {power : ℤ} (hvals : vs.valSet.Valid)
    (h : BlockCounted vs (accepted ++ [vote]) vote.blockID.key (bv.addVerifiedVote vote power))
    (hbasic : ∀ v ∈ accepted ++ [vote], v.validateBasic = true)
    (hold : ∀ b, vs.maj23 = some b → Quorum vs.valSet.indices vs.valSet.power (vs.leaders b))
    (hcount : vs.countVote vote vote.blockID.key power bv = .ok vs')
    (hmaj : vs'.maj23 = some b) : Quorum vs'.valSet.indices vs'.valSet.power (vs'.leaders b) := by
  rcases countVote_spec hvals hcount with ⟨-, hlt, -, rfl⟩ | ⟨-, rfl⟩
  · obtain rfl : vote.blockID = b := Option.some.inj hmaj
    have hvote := hbasic vote (mem_append_right _ (mem_singleton_self _))
    rw [h.tallied.sum] at hlt
    refine Quorum.mono ⟨Finset.filter_subset _ _, hlt⟩ hvals.power_nonneg (fun i hi => ?_)
      (Finset.filter_subset _ _)
    obtain ⟨hmem, hsome⟩ := Finset.mem_filter.mp hi
    obtain ⟨v, hv⟩ := Option.isSome_iff_exists.mp hsome
    obtain ⟨haccepted, hkey, -⟩ := h.stored i v hv
    have hblock : v.blockID = vote.blockID :=
      BlockID.key_injOn (Vote.wellFormed_of_validateBasic (hbasic v haccepted))
        (Vote.wellFormed_of_validateBasic hvote) hkey
    refine Finset.mem_filter.mpr ⟨hmem, ?_⟩
    show ((bv.addVerifiedVote vote power).votes i <|> vs.votes i).map Vote.blockID = _
    rw [hv]
    exact congrArg some hblock
  · exact hold b hmaj

/-- **A vote that passes `ValidateBasic`** is added, and the majority is still one of canonical
votes. -/
theorem Settled.added (hvals : vs.valSet.Valid) (h : Counted crypto vs accepted)
    (hs : vs.Settled accepted) (hbasic : vote.validateBasic = true) {added : Bool}
    (hadd : Added crypto vs vote vs' added) :
    vs'.Settled (if added then accepted ++ [vote] else accepted) := by
  have hall : ∀ v ∈ accepted ++ [vote], v.validateBasic = true :=
    forall_mem_append.mpr ⟨hs.basic, forall_mem_singleton.mpr hbasic⟩
  have hcanonical : ∀ i v, vs'.votes i = some v → v.validateBasic = true := by
    intro i v hv
    rcases hadd.votes_cases hvals h hv with ⟨-, rfl⟩ | hold | ⟨haccepted, -⟩
    · exact hbasic
    · exact hs.canonical i v hold
    · exact hs.basic v haccepted
  have hrecorded : ∀ {vs₁ : VoteSet} {power : ℤ} {conflicting : Option Vote},
      Recorded vs vote vs₁ →
      vs.recordVote vote vote.blockID.key power = .ok (vs₁, conflicting) →
      ∀ b, vs₁.maj23 = some b → Quorum vs₁.valSet.indices vs₁.valSet.power (vs₁.leaders b) := by
    intro vs₁ power conflicting hr hrecord b hb
    have hmaj := hr.maj23.symm.trans hb
    exact leaders_quorum_of_subset hvals hr.same (hs.leading b hmaj)
      (leaders_subset_of_recordVote (h.wellFormed_maj23 hs hmaj)
        (Vote.wellFormed_of_validateBasic hbasic) hmaj hrecord)
  cases hadd with
  | dropped _ hr hrecord _ => exact ⟨hs.basic, hcanonical, hrecorded hr hrecord⟩
  | counted hverified hr hrecord ht hcount =>
    have hpower := ValidatorSet.power_of_getElem? hverified.lookup
    have hblock := ((h.of_recorded hr).blockCounted ht).add ht.none
      (hr.same.valSet ▸ hverified.mem_indices) (by rw [hr.same.valSet, hpower]) hr.has
    exact ⟨hall, hcanonical, fun b => leading_of_countVote (hr.same.valSet ▸ hvals) hblock hall
      (hrecorded hr hrecord) hcount⟩

end VoteSet

namespace Collection

variable {crypto : Crypto} {c c' : Collection} {call : Call} {valSet : ValidatorSet}

/-- The votes of the calls pass `ValidateBasic`, as those that are decoded and those that are signed
here. -/
def Basic (_ : Collection) : Call → Prop
  | .addVote vote => vote.validateBasic = true
  | .setPeerMaj23 _ _ => True

instance (c : Collection) : ∀ call, Decidable (Basic c call)
  | .addVote _ => inferInstanceAs (Decidable (_ = _))
  | .setPeerMaj23 _ _ => inferInstanceAs (Decidable True)

theorem settled_next (hvals : valSet.Valid) (h : Good crypto valSet c)
    (hs : c.set.Settled c.accepted) (hbasic : Basic c call) (hnext : next crypto c call = some c') :
    c'.set.Settled c'.accepted := by
  cases h.called hnext with
  | refused vote => exact hs
  | added hadded => exact hs.added (h.valSet ▸ hvals) h.counted hbasic hadded
  | claimed hclaimed => exact ⟨hs.basic, hs.canonical, hs.leading⟩

/-- **A run** of calls with votes that pass `ValidateBasic`. -/
theorem settled_run {chainID : String} {height round : ℤ} {type : SignedMsgType} {ext : Bool}
    {s : VoteSet} (hvals : valSet.Valid)
    (hnew : newVoteSet chainID height round type valSet ext = .ok s)
    (hrun : Steps (next crypto) Basic (.mk s []) c) :
    Good crypto valSet c ∧ c.set.Canonical crypto ∧ c.set.Settled c.accepted ∧
      VoteSet.SameStep s c.set := by
  refine hrun.invariant ?_ ?_
  · refine ⟨good_start hnew, ?_, ?_, ⟨rfl, rfl, rfl, rfl, rfl, rfl⟩⟩
    · rw [(newVoteSet_eq hnew).2]
      exact nofun
    · rw [(newVoteSet_eq hnew).2]
      exact ⟨nofun, nofun, nofun⟩
  · rintro c call c' ⟨hgood, hcanonical, hs, hsame⟩ hbasic hnext
    exact ⟨(hgood.next hvals hnext).1, canonical_next hvals hgood hcanonical hnext,
      settled_next hvals hgood hs hbasic hnext, hsame.trans (hgood.sameStep hvals hnext)⟩

end Collection

/-! ### Making the commit -/

/-- A vote as the signature that a commit has of it. -/
def Vote.signedWith (flag : BlockIDFlag) (v : Vote) : ExtendedCommitSig where
  blockIDFlag := flag
  validatorAddress := v.validatorAddress
  timestamp := v.timestamp
  signature := v.signature
  extension := v.extension
  extensionSignature := v.extensionSignature

/-- The signature of a validator in a commit for a block. -/
def sigFor (b : BlockID) : Option Vote → ExtendedCommitSig
  | none => { blockIDFlag := .absent }
  | some v =>
    if v.blockID.isNil then v.signedWith .nil
    else if v.blockID = b then v.signedWith .commit
    else { blockIDFlag := .absent }

variable {crypto : Crypto} {vs : VoteSet} {b : BlockID} {vote : Option Vote}

theorem BlockID.not_isComplete_of_isNil (h : b.isNil = true) : b.isComplete = false := by
  rw [isNil_iff.mp h]
  decide

theorem BlockID.not_isNil_of_isComplete (h : b.isComplete = true) : b.isNil = false := by
  by_contra hnil
  rw [not_isComplete_of_isNil (Bool.eq_true_of_not_eq_false hnil)] at h
  cases h

theorem BlockID.validateBasic_of_isComplete (h : b.isComplete = true) :
    b.validateBasic = true := by
  obtain ⟨hhash, -, hparts⟩ := of_decide_eq_true h
  exact decide_eq_true ⟨decide_eq_true (.inr hhash), decide_eq_true (.inr hparts)⟩

/-- A signature that is there is that of a vote for nil or for the block. -/
theorem sigFor_cases (b : BlockID) (vote : Option Vote) :
    sigFor b vote = { blockIDFlag := .absent } ∨
      ∃ v flag, vote = some v ∧ sigFor b vote = v.signedWith flag ∧
        (flag = .nil ∧ v.blockID.isNil = true ∨
          flag = .commit ∧ v.blockID.isNil = false ∧ v.blockID = b) := by
  cases vote with
  | none => exact .inl rfl
  | some v =>
    unfold sigFor
    dsimp only
    split_ifs with hnil hb
    · exact .inr ⟨v, .nil, rfl, rfl, .inl ⟨rfl, hnil⟩⟩
    · exact .inr ⟨v, .commit, rfl, rfl, .inr ⟨rfl, Bool.eq_false_of_not_eq_true hnil, hb⟩⟩
    · exact .inl rfl

theorem validateBasic_sigFor (h : ∀ v, vote = some v → v.validateBasic = true) :
    (sigFor b vote).toCommitSig.validateBasic = true := by
  rcases sigFor_cases b vote with heq | ⟨v, flag, rfl, heq, hcases⟩
  · rw [heq]
    decide
  · obtain ⟨-, -, -, -, -, hlen, -, hne, hmax, -⟩ := of_decide_eq_true (h v rfl)
    rw [heq]
    rcases hcases with ⟨rfl, -⟩ | ⟨rfl, -⟩
    · exact decide_eq_true ⟨hlen, hne, hmax⟩
    · exact decide_eq_true ⟨hlen, hne, hmax⟩

theorem ExtendedCommitSig.validateBasic_sigFor
    (hbasic : (sigFor b vote).toCommitSig.validateBasic = true)
    (h : ∀ v, vote = some v → v.validateBasic = true ∧ v.type = .precommit)
    (hsize : (sigFor b vote).extension.length ≤ maxVoteExtensionSize) :
    (sigFor b vote).validateBasic = true := by
  refine Bool.and_eq_true_iff.mpr ⟨hbasic, ?_⟩
  rcases sigFor_cases b vote with heq | ⟨v, flag, rfl, heq, hcases⟩
  · rw [heq]
    decide
  · obtain ⟨hv, htype⟩ := h v rfl
    have htail := (of_decide_eq_true hv).2.2.2.2.2.2.2.2.2
    rw [heq] at hsize ⊢
    rcases hcases with ⟨rfl, hnil⟩ | ⟨rfl, hnil, -⟩
    · rw [if_pos (.inr hnil)] at htail
      exact decide_eq_true fun _ => htail.1
    · rw [if_neg (by simp [htype, hnil])] at htail
      exact decide_eq_true ⟨hsize, htail.1⟩

theorem VoteSet.extendedCommitSig_eq (h : ∀ v, vote = some v → v.blockID.WellFormed) :
    extendedCommitSig b vote = .ok (sigFor b vote) := by
  cases vote with
  | none => rfl
  | some v =>
    unfold extendedCommitSig sigFor Vote.commitSig
    dsimp only
    by_cases hnil : v.blockID.isNil = true
    · rw [if_pos hnil, if_neg (by simp [BlockID.not_isComplete_of_isNil hnil]), if_pos hnil]
      rfl
    · rw [if_pos ((h v rfl).resolve_left hnil), if_neg hnil]
      show (if _ then _ else _) = _
      by_cases hb : v.blockID = b
      · rw [if_neg (by simp [hb]), if_pos hb]
        rfl
      · rw [if_pos (by simp [hb]), if_neg hb]
        rfl

/-- What a verified vote says of its extension. -/
theorem VoteSet.Verified.extension {v : Vote} {val : Validator} (h : vs.Verified crypto v val) :
    (vs.extensionsEnabled = false → v.extension = [] ∧ v.extensionSignature = []) ∧
      (vs.extensionsEnabled = true → v.type = .precommit → v.blockID.isNil = false →
        v.extensionSignature ≠ []) := by
  have hverify := h.verify
  unfold verifyVote at hverify
  split at hverify
  · cases hverify
  split at hverify
  · rename_i hext
    refine ⟨fun hfalse => absurd hext (by simp [hfalse]), fun _ htype hnil hempty => ?_⟩
    obtain ⟨err, -, hverify⟩ := ok_of_bind hverify
    cases err with
    | some e => cases hverify
    | none =>
      have hnone := Except.ok.inj hverify
      unfold Vote.verifyExtension at hnone
      rw [if_neg (by simp [htype, hnil]), if_pos hempty] at hnone
      cases hnone
  · rename_i hext
    refine ⟨fun _ => ?_, fun htrue => absurd htrue hext⟩
    obtain ⟨err, -, hverify⟩ := ok_of_bind hverify
    cases err with
    | some e => cases hverify
    | none =>
      dsimp only at hverify
      split_ifs at hverify with hnot
      · cases hverify
      · rw [not_or, not_not, not_not] at hnot
        exact ⟨hnot.2, hnot.1⟩

theorem ExtendedCommitSig.ensureExtension_sigFor (htype : vs.signedMsgType = .precommit)
    (h : ∀ v, vote = some v → v.validateBasic = true ∧ ∃ val, vs.Verified crypto v val) :
    ensureExtension vs.extensionsEnabled (sigFor b vote) = true := by
  rcases sigFor_cases b vote with hsig | ⟨v, flag, rfl, hsig, hflag⟩
  · rw [hsig]
    cases vs.extensionsEnabled <;> rfl
  · obtain ⟨hbasic, val, hverified⟩ := h v rfl
    have htail := (of_decide_eq_true hbasic).2.2.2.2.2.2.2.2.2
    rw [hsig]
    unfold ensureExtension
    cases hext : vs.extensionsEnabled with
    | false => exact decide_eq_true (hverified.extension.1 hext)
    | true =>
      rcases hflag with ⟨rfl, hnil⟩ | ⟨rfl, hnil, -⟩
      · rw [if_pos (.inr hnil)] at htail
        exact decide_eq_true htail
      · exact decide_eq_true (hverified.extension.2 hext (hverified.type.trans htype) hnil)

namespace VoteSet

/-- What `MakeExtendedCommit` makes. -/
def commitOf (vs : VoteSet) (b : BlockID) : ExtendedCommit :=
  ⟨vs.height, vs.round, b,
    (range vs.valSet.validators.length).map fun i => sigFor b (vs.votes i)⟩

/-- A vote set for precommits. Its canonical votes are verified and pass `ValidateBasic`. -/
structure Precommits (crypto : Crypto) (vs : VoteSet) (accepted : List Vote) : Prop where
  type : vs.signedMsgType = .precommit
  canonical : vs.Canonical crypto
  settled : vs.Settled accepted

/-- The extensions are there, in the signature of each of the votes. -/
theorem Precommits.ensureExtension {accepted : List Vote}
    (h : vs.Precommits crypto accepted) (b : BlockID) (i : ℕ) :
    ExtendedCommitSig.ensureExtension vs.extensionsEnabled (sigFor b (vs.votes i)) = true :=
  ExtendedCommitSig.ensureExtension_sigFor h.type fun v hv =>
    ⟨h.settled.canonical i v hv, (h.canonical i v hv).2⟩

/-- **Making the commit** succeeds. -/
theorem Precommits.makeExtendedCommit_eq {accepted : List Vote}
    (h : vs.Precommits crypto accepted) {b : BlockID} (hmaj : vs.maj23 = some b) {fp : FeatureParams}
    (hfp : fp.voteExtensionsEnabled vs.height = .ok vs.extensionsEnabled) :
    vs.makeExtendedCommit fp = .ok (vs.commitOf b) := by
  have hsigs : (range vs.valSet.validators.length).mapM (fun i =>
      extendedCommitSig b (vs.votes i)) = .ok ((range vs.valSet.validators.length).map fun i =>
        sigFor b (vs.votes i)) :=
    mapM_eq_map fun i _ => extendedCommitSig_eq fun v hv =>
      Vote.wellFormed_of_validateBasic (h.settled.canonical i v hv)
  have hall : ((range vs.valSet.validators.length).map fun i => sigFor b (vs.votes i)).all
      (ExtendedCommitSig.ensureExtension vs.extensionsEnabled) = true := by
    rw [all_map, all_eq_true]
    exact fun i _ => h.ensureExtension b i
  unfold makeExtendedCommit
  rw [if_neg (not_not.mpr h.type), hmaj]
  dsimp only
  rw [bind_of_ok hsigs, bind_of_ok hfp, if_pos hall]
  rfl

end VoteSet

/-! ### Making a vote set of the commit -/

def ExtendedCommit.getExtendedVote (ec : ExtendedCommit) (valIndex : ℕ) : Except Failure Vote :=
  match ec.extendedSignatures[valIndex]? with
  | none => .error (.panic "index out of range")
  | some ecs => do
    let blockID ← ecs.votedFor ec.blockID
    return {
      type := .precommit
      height := ec.height
      round := ec.round
      blockID := blockID
      timestamp := ecs.timestamp
      validatorAddress := ecs.validatorAddress
      validatorIndex := valIndex
      signature := ecs.signature
      extension := ecs.extension
      extensionSignature := ecs.extensionSignature }

namespace VoteSet

/-- The loop of `ToVoteSet` and of `addSigsToVoteSet` over the signatures from `idx` on, with the texts
of their panics. -/
def addSigs (crypto : Crypto) (getVote : ℕ → Except Failure Vote) (invalid failed : String) :
    ℕ → List CommitSig → VoteSet → Except Failure VoteSet
  | _, [], voteSet => .ok voteSet
  | idx, commitSig :: rest, voteSet =>
    if commitSig.blockIDFlag = .absent then
      addSigs crypto getVote invalid failed (idx + 1) rest voteSet
    else do
      let vote ← getVote idx
      if vote.validateBasic = false then .error (.panic invalid)
      else do
        let (voteSet, added, err) ← voteSet.addVote crypto vote
        if added = false ∨ err ≠ none then .error (.panic failed)
        else addSigs crypto getVote invalid failed (idx + 1) rest voteSet

end VoteSet

def Commit.toVoteSet (crypto : Crypto) (chainID : String) (vals : ValidatorSet) (commit : Commit) :
    Except Failure VoteSet := do
  let voteSet ← newVoteSet chainID commit.height commit.round .precommit vals false
  voteSet.addSigs crypto commit.getVote "failed to validate vote reconstructed from commit"
    "failed to reconstruct vote set from commit" 0 commit.signatures

def ExtendedCommit.toExtendedVoteSet (crypto : Crypto) (chainID : String) (vals : ValidatorSet)
    (ec : ExtendedCommit) : Except Failure VoteSet := do
  let voteSet ← newVoteSet chainID ec.height ec.round .precommit vals true
  voteSet.addSigs crypto ec.getExtendedVote "failed to validate vote reconstructed from LastCommit"
    "failed to reconstruct vote set from extended commit" 0
    (ec.extendedSignatures.map ExtendedCommitSig.toCommitSig)

namespace VoteSet

variable {crypto : Crypto} {vs vs' : VoteSet} {accepted : List Vote} {vote : Vote} {val : Validator}

theorem exists_countVote (hvals : vs.valSet.Valid) (vote : Vote) (power : ℤ) (bv : BlockVotes) :
    ∃ vs', vs.countVote vote vote.blockID.key power bv = .ok vs' := by
  unfold countVote
  rw [bind_of_ok hvals.getTotalVotingPower]
  dsimp only
  split_ifs
  · exact ⟨_, rfl⟩
  · exact ⟨_, rfl⟩

/-- The first vote of a validator is counted. -/
theorem addVerifiedVote_of_first (hvals : vs.valSet.Valid) (power : ℤ)
    (hnone : vs.votes vote.validatorIndex.toNat = none) :
    ∃ vs', vs.addVerifiedVote vote vote.blockID.key power = .ok (vs', true, none) := by
  obtain ⟨vs₁, hrecord, hvals₁⟩ : ∃ vs₁, vs.recordVote vote vote.blockID.key power =
      .ok (vs₁, none) ∧ vs₁.valSet = vs.valSet := by
    unfold recordVote
    dsimp only
    rw [hnone]
    exact ⟨_, rfl, rfl⟩
  unfold addVerifiedVote
  rw [bind_of_ok hrecord]
  dsimp only
  split
  · rename_i bv _
    obtain ⟨vs', hcount⟩ := exists_countVote (hvals₁ ▸ hvals) vote power bv
    rw [if_neg fun h => Bool.false_ne_true h.1, bind_of_ok hcount]
    exact ⟨vs', rfl⟩
  · obtain ⟨vs', hcount⟩ := exists_countVote (hvals₁ ▸ hvals) vote power { peerMaj23 := false }
    rw [if_neg (by simp), bind_of_ok hcount]
    exact ⟨vs', rfl⟩

/-- Who has no canonical vote has none for any block. -/
theorem Counted.getVote_eq_none (h : Counted crypto vs accepted) {i : ℕ} (hnone : vs.votes i = none)
    (key : Bytes) : vs.getVote i key = none := by
  unfold getVote
  dsimp only
  rw [hnone]
  dsimp only
  refine Option.bind_eq_none_iff.mpr fun bv hbv => ?_
  by_contra hsome
  obtain ⟨v, hv⟩ := Option.ne_none_iff_exists'.mp hsome
  have hhas := ((h.byBlock _ bv hbv).stored i v hv).2.2.2
  rw [hnone] at hhas
  cases hhas

/-- A verified vote of a validator that has not voted is added. -/
theorem addVote_of_verified (hvals : vs.valSet.Valid) (h : Counted crypto vs accepted)
    (hverified : vs.Verified crypto vote val) (haddr : vote.validatorAddress ≠ [])
    (hnone : vs.votes vote.validatorIndex.toNat = none) :
    ∃ vs', vs.addVote crypto vote = .ok (vs', true, none) := by
  have hindex : vs.valSet.getByIndex vote.validatorIndex = some val := by
    unfold ValidatorSet.getByIndex
    rw [if_neg (not_lt.mpr hverified.index_nonneg)]
    exact hverified.lookup
  obtain ⟨vs', hadd⟩ := addVerifiedVote_of_first hvals val.votingPower hnone
  unfold addVote
  rw [if_neg (not_lt.mpr hverified.index_nonneg), if_neg haddr,
    if_neg (by simp [hverified.height, hverified.round, hverified.type]), hindex]
  dsimp only
  rw [if_neg (not_not.mpr hverified.address), h.getVote_eq_none hnone]
  dsimp only
  rw [bind_of_ok hverified.verify]
  dsimp only
  rw [bind_of_ok hadd]
  exact ⟨vs', rfl⟩

/-- The votes of the signatures from `idx` on can be added: they pass `ValidateBasic` and verify for the
validator at their index. -/
def Addable (crypto : Crypto) (vs : VoteSet) (getVote : ℕ → Except Failure Vote) (idx : ℕ)
    (sigs : List CommitSig) : Prop :=
  ∀ k sig, sigs[k]? = some sig → sig.blockIDFlag ≠ .absent →
    ∃ vote val, getVote (idx + k) = .ok vote ∧ vote.validateBasic = true ∧
      vote.validatorIndex = (idx + k : ℕ) ∧ vs.Verified crypto vote val

/-- The votes of the signatures from `idx` on. -/
def IsVoteOf (getVote : ℕ → Except Failure Vote) (idx : ℕ) (sigs : List CommitSig) (v : Vote) : Prop :=
  ∃ k sig, sigs[k]? = some sig ∧ sig.blockIDFlag ≠ .absent ∧ getVote (idx + k) = .ok v

variable {getVote : ℕ → Except Failure Vote} {sigs : List CommitSig}

theorem Addable.tail {idx : ℕ} {sig : CommitSig} (h : vs.Addable crypto getVote idx (sig :: sigs))
    (hsame : SameStep vs vs') : vs'.Addable crypto getVote (idx + 1) sigs := by
  intro k sig' hk hflag
  obtain ⟨vote, val, hvote, hbasic, hindex, hverified⟩ := h (k + 1) sig' hk hflag
  rw [show idx + (k + 1) = idx + 1 + k by omega] at hvote hindex
  exact ⟨vote, val, hvote, hbasic, hindex, hverified.of_sameStep hsame⟩

/-- **Adding the signatures** of a commit to a vote set in which the validators from `idx` on have not
voted: all votes are accepted. -/
theorem addSigs_spec {idx : ℕ} (invalid failed : String) (hvals : vs.valSet.Valid)
    (h : Counted crypto vs accepted) (hfresh : ∀ i, idx ≤ i → vs.votes i = none)
    (hadd : vs.Addable crypto getVote idx sigs) :
    ∃ vs' accepted', addSigs crypto getVote invalid failed idx sigs vs = .ok vs' ∧
      SameStep vs vs' ∧ Counted crypto vs' accepted' ∧
      ∀ v, v ∈ accepted' ↔ v ∈ accepted ∨ IsVoteOf getVote idx sigs v := by
  induction sigs generalizing idx vs accepted with
  | nil =>
    refine ⟨vs, accepted, rfl, ⟨rfl, rfl, rfl, rfl, rfl, rfl⟩, h, fun v => ⟨.inl, ?_⟩⟩
    rintro (hv | ⟨k, sig, hk, -⟩)
    · exact hv
    · cases hk
  | cons sig sigs ih =>
    have hstep : ∀ v, IsVoteOf getVote idx (sig :: sigs) v ↔
        sig.blockIDFlag ≠ .absent ∧ getVote idx = .ok v ∨ IsVoteOf getVote (idx + 1) sigs v := by
      intro v
      constructor
      · rintro ⟨k, sig', hk, hflag, hv⟩
        cases k with
        | zero =>
          cases hk
          exact .inl ⟨hflag, hv⟩
        | succ k => exact .inr ⟨k, sig', hk, hflag, by rwa [show idx + 1 + k = idx + (k + 1) by omega]⟩
      · rintro (⟨hflag, hv⟩ | ⟨k, sig', hk, hflag, hv⟩)
        · exact ⟨0, sig, rfl, hflag, hv⟩
        · exact ⟨k + 1, sig', hk, hflag, by rwa [show idx + (k + 1) = idx + 1 + k by omega]⟩
    unfold addSigs
    by_cases habsent : sig.blockIDFlag = .absent
    · obtain ⟨vs', accepted', heq, hsame, hcounted, hmem⟩ := ih hvals h
        (fun i hi => hfresh i (Nat.le_of_succ_le hi)) (hadd.tail ⟨rfl, rfl, rfl, rfl, rfl, rfl⟩)
      rw [if_pos habsent]
      refine ⟨vs', accepted', heq, hsame, hcounted, fun v => ?_⟩
      rw [hmem, hstep]
      simp [habsent]
    · obtain ⟨vote, val, hvote, hbasic, hindex, hverified⟩ := hadd 0 sig rfl habsent
      have htoNat : vote.validatorIndex.toNat = idx := by
        rw [hindex, Int.toNat_natCast, add_zero]
      have haddr : vote.validatorAddress ≠ [] := by
        have hlen := (of_decide_eq_true hbasic).2.2.2.2.2.1
        rintro hnil
        rw [hnil] at hlen
        cases hlen
      obtain ⟨vs₁, hvs₁⟩ := addVote_of_verified hvals h hverified haddr
        (hfresh _ (htoNat.symm.le))
      rcases h.addVote_cases hvs₁ with ⟨-, hfalse⟩ | hadded
      · cases hfalse
      obtain ⟨hsame₁, hcounted₁⟩ := hadded.counted_iff hvals h
      have hfresh₁ : ∀ i, idx + 1 ≤ i → vs₁.votes i = none := by
        intro i hi
        by_contra hsome
        obtain ⟨v, hv⟩ := Option.ne_none_iff_exists'.mp hsome
        have hnone := hfresh i (Nat.le_of_succ_le hi)
        rcases hadded.votes_cases hvals h hv with ⟨hi', -⟩ | hold | ⟨haccepted, rfl⟩
        · omega
        · cases hnone.symm.trans hold
        · obtain ⟨bv, hbv, hsome⟩ := h.counted v haccepted
          obtain ⟨w, hw⟩ := Option.isSome_iff_exists.mp hsome
          have hhas := ((h.byBlock _ bv hbv).stored _ w hw).2.2.2
          rw [hnone] at hhas
          cases hhas
      obtain ⟨vs', accepted', heq, hsame, hcounted, hmem⟩ :=
        ih (hsame₁.valSet ▸ hvals) hcounted₁ hfresh₁ (hadd.tail hsame₁)
      have hvote : getVote idx = .ok vote := hvote
      rw [if_neg habsent, bind_of_ok hvote, if_neg (by simp [hbasic]), bind_of_ok hvs₁]
      refine ⟨vs', accepted', heq, hsame₁.trans hsame, hcounted, fun v => ?_⟩
      rw [hmem, hstep, if_pos rfl, mem_append, mem_singleton, hvote]
      simp only [Except.ok.injEq]
      tauto

/-- **A new vote set** gets the majority of the signatures that are added to it. -/
theorem exists_addSigs {chainID : String} {height round : ℤ} {vals : ValidatorSet} {ext : Bool}
    (invalid failed : String) (hvals : vals.Valid)
    (hnew : newVoteSet chainID height round .precommit vals ext = .ok vs)
    (hadd : vs.Addable crypto getVote 0 sigs) {b : BlockID} (hb : b.WellFormed) {A : Finset ℕ}
    (hA : Quorum vals.indices vals.power A)
    (hfor : ∀ i ∈ A, ∃ sig vote, sigs[i]? = some sig ∧ sig.blockIDFlag ≠ .absent ∧
      getVote i = .ok vote ∧ vote.blockID = b) :
    ∃ vs', addSigs crypto getVote invalid failed 0 sigs vs = .ok vs' ∧ vs'.maj23 = some b := by
  have hvalSet : vs.valSet = vals := by rw [(newVoteSet_eq hnew).2]
  have hfresh : ∀ i, 0 ≤ i → vs.votes i = none := by
    rw [(newVoteSet_eq hnew).2]
    exact fun _ _ => rfl
  obtain ⟨vs', accepted, heq, hsame, hcounted, hmem⟩ := addSigs_spec invalid failed
    (hvalSet ▸ hvals) (counted_newVoteSet hnew) hfresh hadd
  have hgood : Collection.Good crypto vals ⟨vs', accepted⟩ :=
    ⟨hcounted, hsame.valSet.trans hvalSet⟩
  -- a vote that was accepted is the one at its index
  have hindex : ∀ v ∈ accepted, getVote v.validatorIndex.toNat = .ok v := by
    intro v hv
    obtain ⟨k, sig, hk, hflag, hv⟩ := ((hmem v).mp hv).resolve_left not_mem_nil
    obtain ⟨vote, -, hvote, -, hi, -⟩ := hadd k sig hk hflag
    cases hv.symm.trans hvote
    rwa [hi, Int.toNat_natCast]
  have hone : ∀ v ∈ accepted, ∀ w ∈ accepted,
      v.validatorIndex.toNat = w.validatorIndex.toNat → v.blockID = w.blockID := by
    intro v hv w hw hvw
    have hget := hindex v hv
    rw [hvw, hindex w hw] at hget
    rw [Except.ok.inj hget]
  have hq : Quorum vals.indices vals.power (Collection.votersFor vals accepted b) := by
    refine hA.mono hvals.power_nonneg (fun i hi => ?_) (Finset.filter_subset _ _)
    obtain ⟨sig, vote, hsig, hflag, hvote, rfl⟩ := hfor i hi
    obtain ⟨vote', -, hvote', -, hi', -⟩ := hadd i sig hsig hflag
    rw [zero_add, hvote] at hvote'
    cases hvote'
    refine Finset.mem_filter.mpr ⟨hA.subset hi, vote, ?_, ?_, rfl⟩
    · exact (hmem vote).mpr (.inr ⟨i, sig, hsig, hflag, by rwa [zero_add]⟩)
    · rw [hi', Int.toNat_natCast, zero_add]
  have hsome := hgood.maj23_of_quorum hvals
    (hq.mono hvals.power_nonneg (Collection.votersFor_subset (c := ⟨vs', accepted⟩) b)
      (Finset.filter_subset _ _))
  obtain ⟨b', hb'⟩ := Option.isSome_iff_exists.mp hsome
  refine ⟨vs', heq, ?_⟩
  rw [← hgood.maj23_eq hvals hb hq hone hb']
  exact hb'

end VoteSet

/-! ### The commit of a vote set -/

/-- The vote without its extension. -/
def Vote.plain (v : Vote) : Vote := { v with extension := [], extensionSignature := [] }

theorem Vote.validateBasic_plain {v : Vote} (h : v.validateBasic = true) :
    v.plain.validateBasic = true := by
  obtain ⟨h₁, h₂, h₃, h₄, h₅, h₆, h₇, h₈, h₉, -⟩ := of_decide_eq_true h
  refine decide_eq_true ⟨h₁, h₂, h₃, h₄, h₅, h₆, h₇, h₈, h₉, ?_⟩
  split_ifs
  · exact ⟨rfl, rfl⟩
  · exact ⟨Nat.zero_le _, fun _ => rfl⟩

namespace VoteSet

variable {crypto : Crypto} {vs vs₀ : VoteSet} {v : Vote} {val : Validator} {b : BlockID}
  {accepted : List Vote}

theorem Verified.plain (h : vs.Verified crypto v val) (hchain : vs₀.chainID = vs.chainID)
    (hheight : vs₀.height = vs.height) (hround : vs₀.round = vs.round)
    (htype : vs₀.signedMsgType = vs.signedMsgType) (hvals : vs₀.valSet = vs.valSet)
    (hext : vs₀.extensionsEnabled = false) : vs₀.Verified crypto v.plain val := by
  refine ⟨h.index_nonneg, hheight ▸ h.height, hround ▸ h.round, htype ▸ h.type, hvals ▸ h.lookup,
    h.address, ?_⟩
  obtain ⟨pubKey, hkey, hverify⟩ := verify_of_verifyVote h.verify
  have hverify' : v.plain.verify crypto vs₀.chainID pubKey = .ok none := hchain ▸ hverify
  unfold verifyVote
  rw [hkey, hext]
  dsimp only
  rw [if_neg Bool.false_ne_true, bind_of_ok hverify']
  exact if_neg (by simp [Vote.plain])

theorem getElem?_commitOf (vs : VoteSet) (b : BlockID) (i : ℕ) :
    (vs.commitOf b).extendedSignatures[i]? =
      if i < vs.valSet.validators.length then some (sigFor b (vs.votes i)) else none := by
  unfold commitOf
  rw [getElem?_map]
  split_ifs with hlt
  · rw [getElem?_range hlt]
    rfl
  · rw [getElem?_eq_none (by rw [length_range]; exact not_lt.mp hlt)]
    rfl

/-- **A signature of the commit** is that of a canonical vote, which is given back. -/
theorem Precommits.of_commitOf (h : vs.Precommits crypto accepted) {i : ℕ} {sig : CommitSig}
    (hsig : (vs.commitOf b).toCommit.signatures[i]? = some sig) (hflag : sig.blockIDFlag ≠ .absent) :
    ∃ v val, vs.votes i = some v ∧ v.validateBasic = true ∧ v.validatorIndex = i ∧
      vs.Verified crypto v val ∧ sig.signature = v.signature ∧
      sig.validatorAddress = v.validatorAddress ∧ (vs.commitOf b).getExtendedVote i = .ok v ∧
      (vs.commitOf b).toCommit.getVote i = .ok v.plain ∧
      (sig.blockIDFlag = .nil ∨ sig.blockIDFlag = .commit) := by
  unfold ExtendedCommit.toCommit at hsig
  rw [getElem?_map] at hsig
  obtain ⟨esig, hesig, rfl⟩ := Option.map_eq_some_iff.mp hsig
  have hget := hesig
  rw [getElem?_commitOf] at hget
  split_ifs at hget with hlt
  obtain rfl := Option.some.inj hget
  obtain habsent | ⟨v, flag, hv, heq, hcases⟩ := sigFor_cases b (vs.votes i)
  · exact absurd (congrArg (·.blockIDFlag) habsent) hflag
  obtain ⟨hindex, val, hverified⟩ := h.canonical i v hv
  have hi : v.validatorIndex = i := by
    have := hverified.index_nonneg
    omega
  have hfor : (v.signedWith flag).votedFor b = .ok v.blockID := by
    rcases hcases with ⟨rfl, hnil⟩ | ⟨rfl, -, rfl⟩
    · exact congrArg Except.ok (BlockID.isNil_iff.mp hnil).symm
    · rfl
  have hv' : v = { v with
      type := .precommit, height := vs.height, round := vs.round, validatorIndex := i } := by
    rw [← hverified.height, ← hverified.round, ← h.type, ← hverified.type, ← hi]
  have hsig' : (vs.commitOf b).toCommit.signatures[i]? = some (v.signedWith flag).toCommitSig := by
    unfold ExtendedCommit.toCommit
    rw [getElem?_map, hesig, heq]
    rfl
  refine ⟨v, val, hv, h.settled.canonical i v hv, hi, hverified, by rw [heq]; rfl, by rw [heq]; rfl,
    ?_, ?_, ?_⟩
  · unfold ExtendedCommit.getExtendedVote
    rw [hesig, heq]
    show ((v.signedWith flag).votedFor b >>= _) = _
    rw [bind_of_ok hfor]
    exact congrArg Except.ok hv'.symm
  · unfold Commit.getVote
    rw [hsig']
    show ((v.signedWith flag).votedFor b >>= _) = _
    rw [bind_of_ok hfor]
    exact congrArg (fun v : Vote => Except.ok v.plain) hv'.symm
  · rw [heq]
    exact hcases.imp And.left And.left

/-- The signatures of the commit are well formed. -/
theorem Settled.validateBasic_of_commitOf (hs : vs.Settled accepted) {sig : CommitSig}
    (hsig : sig ∈ (vs.commitOf b).toCommit.signatures) : sig.validateBasic = true := by
  obtain ⟨ecs, hmem, rfl⟩ := mem_map.mp hsig
  obtain ⟨i, -, rfl⟩ := mem_map.mp hmem
  exact validateBasic_sigFor (hs.canonical i)

theorem Precommits.validateBasic_of_extended (h : vs.Precommits crypto accepted)
    {ecs : ExtendedCommitSig} (hmem : ecs ∈ (vs.commitOf b).extendedSignatures)
    (hsize : ecs.extension.length ≤ maxVoteExtensionSize) : ecs.validateBasic = true := by
  obtain ⟨i, -, rfl⟩ := mem_map.mp hmem
  refine ExtendedCommitSig.validateBasic_sigFor (validateBasic_sigFor (h.settled.canonical i))
    (fun v hv => ⟨h.settled.canonical i v hv, ?_⟩) hsize
  obtain ⟨-, val, hverified⟩ := h.canonical i v hv
  exact hverified.type.trans h.type

/-- The canonical votes for the block are in the commit. -/
theorem Precommits.of_leaders (h : vs.Precommits crypto accepted) (hb : b.isComplete = true) {i : ℕ}
    (hi : i ∈ vs.leaders b) :
    ∃ sig v, (vs.commitOf b).toCommit.signatures[i]? = some sig ∧ sig.blockIDFlag = .commit ∧
      (vs.commitOf b).getExtendedVote i = .ok v ∧
      (vs.commitOf b).toCommit.getVote i = .ok v.plain ∧ v.blockID = b := by
  obtain ⟨hmem, hleads⟩ := Finset.mem_filter.mp hi
  obtain ⟨v, hv, rfl⟩ := Option.map_eq_some_iff.mp hleads
  have hnil := BlockID.not_isNil_of_isComplete hb
  have hsig : (vs.commitOf v.blockID).toCommit.signatures[i]? =
      some (v.signedWith .commit).toCommitSig := by
    unfold ExtendedCommit.toCommit
    rw [getElem?_map, getElem?_commitOf, if_pos (Finset.mem_range.mp hmem), hv]
    unfold sigFor
    dsimp only
    rw [if_neg (by simp [hnil]), if_pos rfl]
    rfl
  obtain ⟨v', -, hv', -, -, -, -, -, hext, hget, -⟩ := h.of_commitOf hsig nofun
  cases hv.symm.trans hv'
  exact ⟨_, v, hsig, rfl, hext, hget, rfl⟩

/-- **The commit verifies.** -/
theorem Precommits.verifyCommit_commitOf {scheme : Scheme} (h : vs.Precommits scheme.toCrypto accepted)
    (hscheme : scheme.Faithful) (hsized : scheme.Sized) (hvals : vs.valSet.Established)
    (hmaj : vs.maj23 = some b) (hb : b.isComplete = true) :
    verifyCommit scheme vs.chainID vs.valSet b vs.height (vs.commitOf b).toCommit = .ok none := by
  have hlength : vs.valSet.validators.length = (vs.commitOf b).toCommit.signatures.length := by
    simp [ExtendedCommit.toCommit, commitOf]
  refine verifyTwoThirds_complete hscheme hsized hvals hlength true (fun i sig hsig hpresent => ?_)
    (h.settled.leading b hmaj) fun i hi => ?_
  · have hflag : sig.blockIDFlag ≠ .absent := of_decide_eq_false hpresent
    obtain ⟨v, val, -, -, hindex, hverified, hsignature, -, -, hget, -⟩ :=
      h.of_commitOf hsig hflag
    have hlookup := hverified.lookup
    rw [hindex, Int.toNat_natCast] at hlookup
    obtain ⟨pubKey, hkey, hverify⟩ := verify_of_verifyVote hverified.verify
    obtain ⟨-, -, bytes, hbytes, hvalid⟩ := Vote.of_verify_eq_none hverify
    refine ⟨h.settled.validateBasic_of_commitOf (mem_of_getElem? hsig), val, hlookup,
      pubKey, bytes, sig, hkey, hsig, ?_, by rwa [hsignature]⟩
    unfold Commit.voteSignBytes
    rw [bind_of_ok hget]
    exact hbytes
  · obtain ⟨sig, -, hsig, hflag, -⟩ := h.of_leaders hb hi
    exact ⟨sig, hsig, by simp [hflag], by simp [hflag]⟩

section

variable (h : vs.Precommits crypto accepted) (hvals : vs.valSet.Valid) (hheight : vs.height ≠ 0)

include h hvals hheight

/-- **The commit can be made a vote set again**, without the extensions. -/
theorem Precommits.toVoteSet_commitOf (hmaj : vs.maj23 = some b) (hb : b.isComplete = true) :
    ∃ vs', (vs.commitOf b).toCommit.toVoteSet crypto vs.chainID vs.valSet = .ok vs' ∧
      vs'.maj23 = some b := by
  have hnew : newVoteSet vs.chainID (vs.commitOf b).toCommit.height (vs.commitOf b).toCommit.round
      .precommit vs.valSet false = .ok _ := if_neg hheight
  unfold Commit.toVoteSet
  rw [bind_of_ok hnew]
  refine exists_addSigs _ _ hvals hnew (fun k sig hsig hflag => ?_) (.inr hb)
    (h.settled.leading b hmaj) fun i hi => ?_
  · obtain ⟨v, val, -, hbasic, hindex, hverified, -, -, -, hget, -⟩ :=
      h.of_commitOf hsig hflag
    rw [zero_add]
    exact ⟨v.plain, val, hget, Vote.validateBasic_plain hbasic, hindex,
      hverified.plain rfl rfl rfl h.type.symm rfl rfl⟩
  · obtain ⟨sig, v, hsig, hflag, -, hget, hv⟩ := h.of_leaders hb hi
    exact ⟨sig, v.plain, hsig, by rw [hflag]; nofun, hget, hv⟩

/-- **The commit can be made a vote set again**, with the extensions. -/
theorem Precommits.toExtendedVoteSet_commitOf (hext : vs.extensionsEnabled = true)
    (hmaj : vs.maj23 = some b) (hb : b.isComplete = true) :
    ∃ vs', (vs.commitOf b).toExtendedVoteSet crypto vs.chainID vs.valSet = .ok vs' ∧
      vs'.maj23 = some b := by
  have hnew : newVoteSet vs.chainID (vs.commitOf b).height (vs.commitOf b).round
      .precommit vs.valSet true = .ok _ := if_neg hheight
  unfold ExtendedCommit.toExtendedVoteSet
  rw [bind_of_ok hnew]
  refine exists_addSigs _ _ hvals hnew (fun k sig hsig hflag => ?_) (.inr hb)
    (h.settled.leading b hmaj) fun i hi => ?_
  · obtain ⟨v, val, -, hbasic, hindex, hverified, -, -, hget, -, -⟩ :=
      h.of_commitOf hsig hflag
    rw [zero_add]
    exact ⟨v, val, hget, hbasic, hindex,
      hverified.of_sameStep ⟨rfl, rfl, rfl, h.type.symm, rfl, hext.symm⟩⟩
  · obtain ⟨sig, v, hsig, hflag, hget, -, hv⟩ := h.of_leaders hb hi
    exact ⟨sig, v, hsig, by rw [hflag]; nofun, hget, hv⟩

end

end VoteSet

/-! ### Commits of others -/

/-- Every signature of a commit is valid for the validator at its index, and carries its address. -/
def Commit.Genuine (crypto : Crypto) (chainID : String) (vals : ValidatorSet) (commit : Commit) :
    Prop :=
  ∀ i sig, commit.signatures[i]? = some sig → sig.blockIDFlag ≠ .absent →
    ∃ val, vals.validators[i]? = some val ∧ sig.validatorAddress = val.address ∧
      commit.ValidAt crypto chainID i val

/-- The signatures of an extended commit are, and those of the extensions. -/
structure ExtendedCommit.Genuine (crypto : Crypto) (chainID : String) (vals : ValidatorSet)
    (ec : ExtendedCommit) : Prop where
  commit : ec.toCommit.Genuine crypto chainID vals
  extensions : ∀ (i : ℕ) (ecs : ExtendedCommitSig) (val : Validator) (pubKey : PubKey),
    ec.extendedSignatures[i]? = some ecs → ecs.blockIDFlag = .commit →
    vals.validators[i]? = some val → val.pubKey = some pubKey →
    crypto.verifySignature pubKey
      (crypto.encodeVoteExtension ⟨ecs.extension, ec.height, ec.round, chainID⟩)
      ecs.extensionSignature = true

/-- The addresses of the validators are those of their keys. -/
def ValidatorSet.Addressed (crypto : Crypto) (vals : ValidatorSet) : Prop :=
  ∀ val ∈ vals.validators, ∀ pubKey, val.pubKey = some pubKey → crypto.address pubKey = val.address

/-- The signatures for the block of a commit. -/
def Commit.signers (vals : ValidatorSet) (commit : Commit) : Finset ℕ :=
  vals.indices.filter fun i => commit.signatures[i]?.any fun sig => sig.blockIDFlag = .commit

theorem Commit.mem_signers {vals : ValidatorSet} {commit : Commit} {i : ℕ} :
    i ∈ commit.signers vals ↔ i ∈ vals.indices ∧
      ∃ sig, commit.signatures[i]? = some sig ∧ sig.blockIDFlag = .commit := by
  unfold signers
  rw [Finset.mem_filter]
  refine and_congr_right fun _ => ?_
  cases commit.signatures[i]? with
  | none => simp
  | some sig => simp

/-- A commit that passes `VerifyCommit` or `VerifyCommitLight` has a quorum of signatures for its
block. -/
theorem Commit.quorum_of_verifyTwoThirds {scheme : Scheme} (hscheme : scheme.Faithful)
    {vals : ValidatorSet} (hvals : vals.validateBasic scheme.toCrypto = true) (hcached : vals.Cached)
    {chainID : String} {blockID : BlockID} {height : ℤ} {commit : Commit}
    {ignoreSig countSig : CommitSig → Bool} {all : Bool}
    (hflag : ∀ sig, ignoreSig sig = false → countSig sig = true → sig.blockIDFlag = .commit)
    (h : verifyTwoThirds scheme chainID vals blockID height commit ignoreSig countSig all
      = .ok none) : Quorum vals.indices vals.power (commit.signers vals) := by
  unfold verifyTwoThirds at h
  split at h
  · cases h
  obtain ⟨total, htotal, h⟩ := ok_of_bind h
  obtain ⟨hsized, hsum, hnonneg⟩ := ValidatorSet.sized_of_validateBasic hvals hcached htotal
  obtain ⟨⟨A, ⟨idx, seenVals, hc⟩, hlt⟩, -⟩ := verifyCommitSigs_sound hscheme hsized h
  have hA : Quorum vals.indices vals.power A := by
    refine ⟨hc.subset, ?_⟩
    rw [← hsum]
    exact two_thirds_of_needed hnonneg (hsum ▸ hsized.bound) hlt
  refine hA.mono hsized.nonneg (fun i hi => ?_) (Finset.filter_subset _ _)
  obtain ⟨k, sig, val, hsig, hignore, hcount, hlook, -⟩ := hc.counted i hi
  obtain ⟨rfl, -⟩ : i = k ∧ _ := hlook
  exact mem_signers.mpr ⟨hc.subset hi, sig, hsig, hflag sig hignore hcount⟩

/-- What a commit must have, apart from its signatures. -/
structure Commit.Formed (commit : Commit) : Prop where
  height : 0 < commit.height
  round : 0 ≤ commit.round
  blockID : commit.blockID.isComplete = true
  basic : ∀ sig ∈ commit.signatures, sig.validateBasic = true

namespace Commit

variable {crypto : Crypto} {chainID : String} {vals : ValidatorSet} {commit : Commit} {i : ℕ}
  {sig : CommitSig}

/-- The vote of a signature passes `ValidateBasic`. -/
theorem Formed.exists_vote (h : commit.Formed) (hsig : commit.signatures[i]? = some sig)
    (hflag : sig.blockIDFlag ≠ .absent) :
    ∃ v, commit.getVote i = .ok v ∧ v = v.plain ∧ v.validateBasic = true ∧ v.type = .precommit ∧
      v.height = commit.height ∧ v.round = commit.round ∧ v.validatorIndex = i ∧
      v.validatorAddress = sig.validatorAddress ∧ v.signature = sig.signature ∧
      (sig.blockIDFlag = .commit → v.blockID = commit.blockID) ∧
      (sig.blockIDFlag ≠ .commit → v.blockID.isNil = true) := by
  have hbasic := h.basic sig (mem_of_getElem? hsig)
  have hvote : ∀ blockID : BlockID, blockID.WellFormed → blockID.validateBasic = true →
      sig.validatorAddress.length = addressSize → sig.signature ≠ [] →
      sig.signature.length ≤ maxSignatureSize → Vote.validateBasic ⟨.precommit, commit.height,
        commit.round, blockID, sig.timestamp, sig.validatorAddress, i, sig.signature, [], []⟩ = true := by
    intro blockID hwf hid hlen hne hmax
    refine decide_eq_true ⟨rfl, h.height, h.round, hid, hwf, hlen, Int.natCast_nonneg i, hne, hmax, ?_⟩
    split_ifs
    · exact ⟨rfl, rfl⟩
    · exact ⟨Nat.zero_le _, fun _ => rfl⟩
  unfold CommitSig.validateBasic at hbasic
  unfold getVote CommitSig.votedFor
  rw [hsig]
  dsimp only
  cases hcase : sig.blockIDFlag with
  | absent => exact absurd hcase hflag
  | commit =>
    rw [hcase] at hbasic
    obtain ⟨hlen, hne, hmax⟩ := of_decide_eq_true hbasic
    exact ⟨_, rfl, rfl, hvote _ (.inr h.blockID) (BlockID.validateBasic_of_isComplete h.blockID) hlen
      hne hmax, rfl, rfl, rfl, rfl, rfl, rfl, fun _ => rfl, fun hne => absurd rfl hne⟩
  | nil =>
    rw [hcase] at hbasic
    obtain ⟨hlen, hne, hmax⟩ := of_decide_eq_true hbasic
    exact ⟨_, rfl, rfl, hvote _ (.inl rfl) rfl hlen hne hmax, rfl, rfl, rfl, rfl, rfl, rfl, nofun,
      fun _ => rfl⟩
  | other n =>
    rw [hcase] at hbasic
    cases hbasic

/-- And if the signature is genuine, the vote verifies. -/
theorem Genuine.verify (h : commit.Genuine crypto chainID vals) (hvals : vals.Addressed crypto)
    {v : Vote} (hsig : commit.signatures[i]? = some sig) (hflag : sig.blockIDFlag ≠ .absent)
    (hget : commit.getVote i = .ok v) (haddr : v.validatorAddress = sig.validatorAddress)
    (hsignature : v.signature = sig.signature) :
    ∃ val pubKey, vals.validators[i]? = some val ∧ v.validatorAddress = val.address ∧
      val.pubKey = some pubKey ∧ v.verify crypto chainID pubKey = .ok none := by
  obtain ⟨val, hval, haddress, hvalid⟩ := h i sig hsig hflag
  obtain ⟨pubKey, bytes, sig', hkey, hsig', hbytes, hverify⟩ := hvalid.valid
  obtain rfl : sig' = sig := Option.some.inj (hsig'.symm.trans hsig)
  have hkeyaddr := hvals val (mem_of_getElem? hval) pubKey hkey
  unfold voteSignBytes at hbytes
  rw [bind_of_ok hget] at hbytes
  refine ⟨val, pubKey, hval, haddr.trans haddress, hkey, ?_⟩
  unfold Vote.verify
  rw [if_neg (by rw [hkeyaddr, haddr, haddress]; exact not_not.mpr rfl), bind_of_ok hbytes,
    hsignature, if_pos hverify]
  rfl

/-- **A genuine commit** with a quorum can be made a vote set. -/
theorem Formed.toVoteSet (hformed : commit.Formed) (hvals : vals.Valid)
    (haddressed : vals.Addressed crypto) (hgenuine : commit.Genuine crypto chainID vals)
    (hq : Quorum vals.indices vals.power (commit.signers vals)) :
    ∃ vs, commit.toVoteSet crypto chainID vals = .ok vs ∧ vs.maj23 = some commit.blockID := by
  have hnew : newVoteSet chainID commit.height commit.round .precommit vals false = .ok _ :=
    if_neg hformed.height.ne'
  unfold Commit.toVoteSet
  rw [bind_of_ok hnew]
  refine VoteSet.exists_addSigs _ _ hvals hnew (fun k sig hsig hflag => ?_) (.inr hformed.blockID) hq
    fun i hi => ?_
  · obtain ⟨v, hget, hplain, hbasic, htype, hheight, hround, hindex, haddr, hsignature, -⟩ :=
      hformed.exists_vote hsig hflag
    obtain ⟨val, pubKey, hval, haddress, hkey, hverify⟩ := hgenuine.verify haddressed hsig hflag hget
      haddr hsignature
    rw [zero_add]
    refine ⟨v, val, hget, hbasic, hindex, by rw [hindex]; exact Int.natCast_nonneg k, hheight, hround,
      htype, by rw [hindex, Int.toNat_natCast]; exact hval, haddress, ?_⟩
    unfold VoteSet.verifyVote
    rw [hkey]
    dsimp only
    rw [if_neg Bool.false_ne_true, bind_of_ok hverify, hplain]
    exact if_neg (by simp [Vote.plain])
  · obtain ⟨-, sig, hsig, hflag⟩ := mem_signers.mp hi
    have hpresent : sig.blockIDFlag ≠ .absent := by
      rw [hflag]
      nofun
    obtain ⟨v, hget, -, -, -, -, -, -, -, -, hcommit, -⟩ := hformed.exists_vote hsig hpresent
    exact ⟨sig, v, hsig, hpresent, hget, hcommit hflag⟩

end Commit

namespace ExtendedCommit

variable {crypto : Crypto} {chainID : String} {vals : ValidatorSet} {ec : ExtendedCommit} {i : ℕ}
  {ecs : ExtendedCommitSig}

theorem getElem?_toCommit {sig : CommitSig} (h : ec.toCommit.signatures[i]? = some sig) :
    ∃ ecs, ec.extendedSignatures[i]? = some ecs ∧ ecs.toCommitSig = sig := by
  unfold toCommit at h
  rw [getElem?_map] at h
  exact Option.map_eq_some_iff.mp h

/-- The extended vote is the vote with its extension. -/
theorem getExtendedVote_eq (h : ec.extendedSignatures[i]? = some ecs) {v : Vote}
    (hget : ec.toCommit.getVote i = .ok v) : ec.getExtendedVote i = .ok { v with
      extension := ecs.extension, extensionSignature := ecs.extensionSignature } := by
  unfold Commit.getVote toCommit at hget
  rw [getElem?_map, h] at hget
  obtain ⟨blockID, hfor, hget⟩ := ok_of_bind hget
  cases hget
  unfold getExtendedVote
  rw [h]
  dsimp only
  rw [bind_of_ok hfor]
  rfl

/-- The extension of a signature: there is none with a vote for nil, and a signed one otherwise. -/
theorem extension_cases (hbasic : ecs.validateBasic = true)
    (hensure : ecs.ensureExtension true = true) :
    ecs.blockIDFlag ≠ .commit ∧ ecs.extension = [] ∧ ecs.extensionSignature = [] ∨
      ecs.blockIDFlag = .commit ∧ ecs.extensionSignature ≠ [] ∧
        ecs.extensionSignature.length ≤ maxSignatureSize := by
  obtain ⟨-, hsizes⟩ := Bool.and_eq_true_iff.mp hbasic
  unfold ExtendedCommitSig.ensureExtension at hensure
  rw [if_pos rfl] at hensure
  by_cases hflag : ecs.blockIDFlag = .commit
  · rw [if_pos hflag] at hensure hsizes
    exact .inr ⟨hflag, of_decide_eq_true hensure, (of_decide_eq_true hsizes).2⟩
  · rw [if_neg hflag] at hensure
    exact .inl ⟨hflag, of_decide_eq_true hensure⟩

/-- **A genuine extended commit** with a quorum can be made a vote set. -/
theorem toExtendedVoteSet_of_genuine (hformed : ec.toCommit.Formed) (hvals : vals.Valid)
    (haddressed : vals.Addressed crypto) (hgenuine : ec.Genuine crypto chainID vals)
    (hbasic : ∀ ecs ∈ ec.extendedSignatures, ecs.validateBasic = true)
    (hensure : ec.extendedSignatures.all (ExtendedCommitSig.ensureExtension true) = true)
    (hq : Quorum vals.indices vals.power (ec.toCommit.signers vals)) :
    ∃ vs, ec.toExtendedVoteSet crypto chainID vals = .ok vs ∧ vs.maj23 = some ec.blockID := by
  have hnew : newVoteSet chainID ec.height ec.round .precommit vals true = .ok _ :=
    if_neg hformed.height.ne'
  unfold ExtendedCommit.toExtendedVoteSet
  rw [bind_of_ok hnew]
  refine VoteSet.exists_addSigs _ _ hvals hnew (fun k sig hsig hflag => ?_) (.inr hformed.blockID) hq
    fun i hi => ?_
  · obtain ⟨ecs, hecs, rfl⟩ := getElem?_toCommit hsig
    obtain ⟨v, hget, -, hv, htype, hheight, hround, hindex, haddr, hsignature, hcommit, hnil⟩ :=
      hformed.exists_vote hsig hflag
    obtain ⟨val, pubKey, hval, haddress, hkey, hverify⟩ := hgenuine.commit.verify haddressed hsig
      hflag hget haddr hsignature
    have hmem := mem_of_getElem? hecs
    have hcases := extension_cases (hbasic ecs hmem) (all_eq_true.mp hensure ecs hmem)
    rw [zero_add]
    refine ⟨_, val, getExtendedVote_eq hecs hget, ?_, hindex,
      by rw [hindex]; exact Int.natCast_nonneg k, hheight, hround, htype,
      by rw [hindex, Int.toNat_natCast]; exact hval, haddress, ?_⟩
    · obtain ⟨h₁, h₂, h₃, h₄, h₅, h₆, h₇, h₈, h₉, -⟩ := of_decide_eq_true hv
      refine decide_eq_true ⟨h₁, h₂, h₃, h₄, h₅, h₆, h₇, h₈, h₉, ?_⟩
      rcases hcases with ⟨hne, hempty⟩ | ⟨hflag', hsome, hmax⟩
      · rw [if_pos (.inr (hnil hne))]
        exact hempty
      · rw [if_neg (by simp [htype, hcommit hflag', BlockID.not_isNil_of_isComplete hformed.blockID])]
        exact ⟨hmax, fun hempty => absurd hempty hsome⟩
    · -- the signature of the vote does not depend on the extension
      have hverify' : Vote.verify crypto chainID pubKey { v with
          extension := ecs.extension, extensionSignature := ecs.extensionSignature } = .ok none :=
        hverify
      unfold VoteSet.verifyVote
      rw [hkey]
      dsimp only
      rw [if_pos rfl]
      unfold Vote.verifyVoteAndExtension
      rw [bind_of_ok hverify']
      refine congrArg Except.ok ?_
      unfold Vote.verifyExtension
      dsimp only
      rcases hcases with ⟨hne, -⟩ | ⟨hflag', hsome, -⟩
      · exact if_pos (.inr (hnil hne))
      · have hext := hgenuine.extensions k ecs val pubKey hecs hflag' hval hkey
        rw [if_neg (by simp [htype, hcommit hflag', BlockID.not_isNil_of_isComplete hformed.blockID]),
          if_neg hsome]
        unfold Crypto.voteExtensionSignBytes canonicalizeVoteExtension
        dsimp only
        rw [hheight, hround]
        exact if_pos hext
  · obtain ⟨-, sig, hsig, hflag⟩ := Commit.mem_signers.mp hi
    have hpresent : sig.blockIDFlag ≠ .absent := by
      rw [hflag]
      nofun
    obtain ⟨ecs, hecs, rfl⟩ := getElem?_toCommit hsig
    obtain ⟨v, hget, -, -, -, -, -, -, -, -, hcommit, -⟩ := hformed.exists_vote hsig hpresent
    exact ⟨_, _, hsig, hpresent, getExtendedVote_eq hecs hget, hcommit hflag⟩

end ExtendedCommit

end CometBFT.Types
