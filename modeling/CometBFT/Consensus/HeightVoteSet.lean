import CometBFT.Types.Tally

/-!
# The votes of a height

The model of `internal/consensus/types/height_vote_set.go`: the prevotes and precommits of all rounds
of a height. The rounds up to `round` are tracked; beyond that, each peer can have two more rounds made
for it.

`SetRound` starts one round below the current one. That does no harm later on, since rounds that exist
are skipped, but at its first call the current round is 0, and a vote set for round -1 is made.

## Main results

* `addRounds_spec` — which rounds the loop of `SetRound` makes
* `rounds_tracked` — which rounds are tracked after any calls, and that no vote is lost
* `negative_round_tracked` — round -1
-/

namespace CometBFT.Consensus

open CometBFT.Types List Function

inductive Panic where
  /-- A panic of a vote set. -/
  | voteSet (failure : Failure)
  | nilVoteSet
  | extensionsMismatch
  | setRound
  /-- `addRound() for an existing round`. -/
  | existingRound
deriving DecidableEq, Repr

inductive AddVoteError where
  | invalidVoteType
  | gotVoteFromUnwantedRound
  | voteSet (error : VoteError)
deriving DecidableEq, Repr

/-- A panic in `types`. -/
def orPanic {α : Type} : Except Failure α → Except Panic α
  | .ok a => .ok a
  | .error failure => .error (.voteSet failure)

structure RoundVoteSet where
  prevotes : VoteSet
  precommits : VoteSet

def RoundVoteSet.get (rvs : RoundVoteSet) : SignedMsgType → Option VoteSet
  | .prevote => some rvs.prevotes
  | .precommit => some rvs.precommits
  | _ => none

def RoundVoteSet.set (rvs : RoundVoteSet) (type : SignedMsgType) (voteSet : VoteSet) :
    RoundVoteSet :=
  match type with
  | .prevote => { rvs with prevotes := voteSet }
  | .precommit => { rvs with precommits := voteSet }
  | _ => rvs

structure HeightVoteSet where
  chainID : String
  height : ℤ
  valSet : ValidatorSet
  extensionsEnabled : Bool
  round : ℤ := 0
  roundVoteSets : ℤ → Option RoundVoteSet := fun _ => none
  peerCatchupRounds : String → List ℤ := fun _ => []

namespace HeightVoteSet

section

variable (hvs : HeightVoteSet)

def addRound (round : ℤ) : Except Panic HeightVoteSet :=
  if (hvs.roundVoteSets round).isSome then .error .existingRound
  else do
    let prevotes ← orPanic (newVoteSet hvs.chainID hvs.height round .prevote hvs.valSet false)
    let precommits ← orPanic
      (newVoteSet hvs.chainID hvs.height round .precommit hvs.valSet hvs.extensionsEnabled)
    return { hvs with roundVoteSets := update hvs.roundVoteSets round (some ⟨prevotes, precommits⟩) }

/-- The loop of `SetRound`: `n` rounds from `r` on. -/
def addRounds (hvs : HeightVoteSet) (r : ℤ) : ℕ → Except Panic HeightVoteSet
  | 0 => .ok hvs
  | n + 1 =>
    -- it may exist because of `peerCatchupRounds`
    if (hvs.roundVoteSets r).isSome then addRounds hvs (r + 1) n
    else do
      let hvs ← hvs.addRound r
      addRounds hvs (r + 1) n

def setRound (round : ℤ) : Except Panic HeightVoteSet :=
  let newRound := hvs.round - 1
  if hvs.round ≠ 0 ∧ round < newRound then .error .setRound
  else do
    let hvs ← hvs.addRounds newRound (round - newRound + 1).toNat
    return { hvs with round := round }

/-- The vote is passed to the vote set of its round and type, which exists. -/
def passVote (crypto : Crypto) (vote : Vote) (rvs : RoundVoteSet) :
    Except Panic (HeightVoteSet × Bool × Option AddVoteError) :=
  match rvs.get vote.type with
  | none => .error .nilVoteSet
  | some voteSet => do
    let (voteSet, added, err) ← orPanic (voteSet.addVote crypto vote)
    return ({ hvs with
      roundVoteSets := update hvs.roundVoteSets vote.round (some (rvs.set vote.type voteSet)) },
      added, err.map .voteSet)

/-- Whether the vote was added, or why not. -/
def addVote (crypto : Crypto) (vote : Vote) (peerID : String) (extEnabled : Bool) :
    Except Panic (HeightVoteSet × Bool × Option AddVoteError) :=
  if hvs.extensionsEnabled ≠ extEnabled then .error .extensionsMismatch
  else if vote.type.isVoteTypeValid = false then .ok (hvs, false, some .invalidVoteType)
  else match hvs.roundVoteSets vote.round with
  | some rvs => hvs.passVote crypto vote rvs
  | none =>
    if 2 ≤ (hvs.peerCatchupRounds peerID).length then
      .ok (hvs, false, some .gotVoteFromUnwantedRound)
    else do
      let hvs ← hvs.addRound vote.round
      let hvs := { hvs with
        peerCatchupRounds := update hvs.peerCatchupRounds peerID
          (hvs.peerCatchupRounds peerID ++ [vote.round]) }
      match hvs.roundVoteSets vote.round with
      | some rvs => hvs.passVote crypto vote rvs
      | none => .error .nilVoteSet

/-- A peer claims a majority; nothing happens if the round is not known. -/
def setPeerMaj23 (round : ℤ) (type : SignedMsgType) (peerID : String) (blockID : BlockID) :
    HeightVoteSet :=
  match hvs.roundVoteSets round with
  | none => hvs
  | some rvs =>
    match rvs.get type with
    | none => hvs
    | some voteSet => { hvs with
      roundVoteSets := update hvs.roundVoteSets round
        (some (rvs.set type (voteSet.setPeerMaj23 peerID blockID).1)) }

end

end HeightVoteSet

/-- `NewHeightVoteSet` and, with `extensionsEnabled`, `NewExtendedHeightVoteSet`: both call
`Reset`. -/
def newHeightVoteSet (chainID : String) (height : ℤ) (valSet : ValidatorSet)
    (extensionsEnabled : Bool) : Except Panic HeightVoteSet :=
  HeightVoteSet.addRound { chainID, height, valSet, extensionsEnabled } 0

namespace HeightVoteSet

/-! ### Making rounds -/

variable {crypto : Crypto} {hvs hvs' : HeightVoteSet} {r : ℤ} {sets : ℤ → Option RoundVoteSet}

/-- The rounds that are tracked. -/
def roundsOf (sets : ℤ → Option RoundVoteSet) : Set ℤ := {r | (sets r).isSome = true}

theorem rounds_update (sets : ℤ → Option RoundVoteSet) (r : ℤ) (rvs : RoundVoteSet) :
    roundsOf (update sets r (some rvs)) = insert r (roundsOf sets) := by
  ext r'
  by_cases hr : r' = r
  · simp [roundsOf, hr]
  · simp [roundsOf, hr]

/-- A round that is not tracked can be added, and then is. -/
theorem addRound_ok (hnone : hvs.roundVoteSets r = none) (hheight : hvs.height ≠ 0) :
    ∃ rvs, hvs.addRound r =
      .ok { hvs with roundVoteSets := update hvs.roundVoteSets r (some rvs) } := by
  have hnew : ∀ type ext, ∃ vs, newVoteSet hvs.chainID hvs.height r type hvs.valSet ext = .ok vs :=
    fun type ext => ⟨_, if_neg hheight⟩
  obtain ⟨prevotes, hprevotes⟩ := hnew .prevote false
  obtain ⟨precommits, hprecommits⟩ := hnew .precommit hvs.extensionsEnabled
  unfold addRound
  rw [hnone, hprevotes, hprecommits]
  exact ⟨_, rfl⟩

/-- **The loop of `SetRound`** keeps the vote sets that exist, and makes those that are missing. -/
theorem addRounds_spec (hheight : hvs.height ≠ 0) (r : ℤ) (n : ℕ) :
    ∃ sets, hvs.addRounds r n = .ok { hvs with roundVoteSets := sets } ∧
      (∀ r' rvs, hvs.roundVoteSets r' = some rvs → sets r' = some rvs) ∧
      roundsOf sets = roundsOf hvs.roundVoteSets ∪ Set.Ico r (r + n) := by
  induction n generalizing hvs r with
  | zero => exact ⟨hvs.roundVoteSets, rfl, fun _ _ h => h, by simp⟩
  | succ n ih =>
    have hIco : Set.Ico r (r + (n + 1 : ℕ)) = insert r (Set.Ico (r + 1) (r + 1 + n)) := by
      ext r'
      simp only [Set.mem_Ico, Set.mem_insert_iff]
      omega
    rw [addRounds]
    split_ifs with hsome
    · obtain ⟨sets, heq, hkeeps, hrounds⟩ := ih hheight (r + 1)
      refine ⟨sets, heq, hkeeps, ?_⟩
      have hmem : r ∈ roundsOf hvs.roundVoteSets := hsome
      rw [hrounds, hIco, Set.union_insert, ← Set.insert_union, Set.insert_eq_of_mem hmem]
    · rw [Option.not_isSome_iff_eq_none] at hsome
      obtain ⟨rvs, hadd⟩ := addRound_ok hsome hheight
      obtain ⟨sets, heq, hkeeps, hrounds⟩ :=
        @ih { hvs with roundVoteSets := update hvs.roundVoteSets r (some rvs) } hheight (r + 1)
      refine ⟨sets, by rw [bind_of_ok hadd]; exact heq, fun r' rvs' hr' => hkeeps r' rvs' ?_, ?_⟩
      · exact update_of_none hsome hr' _
      · rw [hrounds, hIco, rounds_update, Set.union_insert, Set.insert_union]

theorem setRound_spec (hheight : hvs.height ≠ 0) {round : ℤ} (hlt : hvs.round < round) :
    ∃ sets, hvs.setRound round = .ok { hvs with roundVoteSets := sets, round := round } ∧
      (∀ r rvs, hvs.roundVoteSets r = some rvs → sets r = some rvs) ∧
      roundsOf sets = roundsOf hvs.roundVoteSets ∪ Set.Icc (hvs.round - 1) round := by
  obtain ⟨sets, heq, hkeeps, hrounds⟩ :=
    addRounds_spec hheight (hvs.round - 1) (round - (hvs.round - 1) + 1).toNat
  refine ⟨sets, ?_, hkeeps, ?_⟩
  · unfold setRound
    dsimp only
    rw [if_neg (by omega), bind_of_ok heq]
    rfl
  · have hIcc : Set.Ico (hvs.round - 1) (hvs.round - 1 + (round - (hvs.round - 1) + 1).toNat) =
        Set.Icc (hvs.round - 1) round := by
      ext r
      simp only [Set.mem_Ico, Set.mem_Icc]
      omega
    rw [hrounds, hIcc]

/-! ### Passing a vote on -/

/-- A call does not panic because of an existing round, and if it returns, the result has the
property. -/
def Leads {α : Type} (P : α → Prop) : Except Panic α → Prop
  | .ok a => P a
  | .error e => e ≠ .existingRound

theorem Leads.mono {α : Type} {P Q : α → Prop} {x : Except Panic α} (h : Leads P x)
    (hPQ : ∀ a, P a → Q a) : Leads Q x := by
  cases x with
  | error e => exact h
  | ok a => exact hPQ a h

theorem Leads.map {α β : Type} {P : β → Prop} {x : Except Panic α} {f : α → β}
    (h : Leads (fun a => P (f a)) x) : Leads P (x.map f) := by
  cases x with
  | error e => exact h
  | ok a => exact h

/-- What a call leaves as it is, the votes apart. -/
structure Same (hvs hvs' : HeightVoteSet) : Prop where
  height : hvs'.height = hvs.height
  round : hvs'.round = hvs.round
  rounds : roundsOf hvs'.roundVoteSets = roundsOf hvs.roundVoteSets
  catchup : hvs'.peerCatchupRounds = hvs.peerCatchupRounds

theorem Same.refl (hvs : HeightVoteSet) : Same hvs hvs := ⟨rfl, rfl, rfl, rfl⟩

/-- The votes of a round that is tracked. -/
theorem same_update {rvs : RoundVoteSet} (hrvs : hvs.roundVoteSets r = some rvs)
    (rvs' : RoundVoteSet) :
    Same hvs { hvs with roundVoteSets := update hvs.roundVoteSets r (some rvs') } := by
  have hmem : r ∈ roundsOf hvs.roundVoteSets := Option.isSome_iff_exists.mpr ⟨rvs, hrvs⟩
  exact ⟨rfl, rfl, by rw [rounds_update, Set.insert_eq_of_mem hmem], rfl⟩

theorem passVote_spec {vote : Vote} {rvs : RoundVoteSet}
    (hrvs : hvs.roundVoteSets vote.round = some rvs) :
    Leads (fun x => Same hvs x.1) (hvs.passVote crypto vote rvs) := by
  unfold passVote
  cases rvs.get vote.type with
  | none => exact fun h => by cases h
  | some vs =>
    dsimp only
    cases vs.addVote crypto vote with
    | error e => exact fun h => by cases h
    | ok x => exact same_update hrvs _

/-- **A vote** changes nothing but votes, unless it is the first of a round that is made for its
peer. -/
theorem addVote_spec (hheight : hvs.height ≠ 0) (vote : Vote) (peerID : String) (ext : Bool) :
    Leads (fun x => Same hvs x.1 ∨ (hvs.peerCatchupRounds peerID).length < 2 ∧
      ∃ rvs, Same { hvs with
        roundVoteSets := update hvs.roundVoteSets vote.round (some rvs)
        peerCatchupRounds := update hvs.peerCatchupRounds peerID
          (hvs.peerCatchupRounds peerID ++ [vote.round]) } x.1)
      (hvs.addVote crypto vote peerID ext) := by
  unfold addVote
  split
  · exact fun h => by cases h
  split
  · exact .inl (.refl hvs)
  cases hrvs : hvs.roundVoteSets vote.round with
  | some rvs => exact (passVote_spec hrvs).mono fun _ => .inl
  | none =>
    dsimp only
    split
    · exact .inl (.refl hvs)
    · rename_i hlt
      obtain ⟨rvs, hadd⟩ := addRound_ok hrvs hheight
      rw [bind_of_ok hadd]
      dsimp only
      rw [update_self]
      exact (passVote_spec (update_self ..)).mono fun _ h => .inr ⟨not_le.mp hlt, rvs, h⟩

theorem setPeerMaj23_same (round : ℤ) (type : SignedMsgType) (peerID : String) (blockID : BlockID) :
    Same hvs (hvs.setPeerMaj23 round type peerID blockID) := by
  unfold setPeerMaj23
  split
  · exact .refl hvs
  · rename_i rvs hrvs
    split
    · exact .refl hvs
    · exact same_update hrvs _

/-! ### Any calls -/

inductive Call where
  | setRound (round : ℤ)
  | addVote (vote : Vote) (peerID : String)
  | setPeerMaj23 (round : ℤ) (type : SignedMsgType) (peerID : String) (blockID : BlockID)

/-- One call. The caller says of a vote whether extensions are enabled at this height, as they are. -/
def Call.apply (crypto : Crypto) (hvs : HeightVoteSet) : Call → Except Panic HeightVoteSet
  | .setRound round => hvs.setRound round
  | .addVote vote peerID => (hvs.addVote crypto vote peerID hvs.extensionsEnabled).map Prod.fst
  | .setPeerMaj23 round type peerID blockID => .ok (hvs.setPeerMaj23 round type peerID blockID)

def next (crypto : Crypto) (hvs : HeightVoteSet) (call : Call) : Option HeightVoteSet :=
  (call.apply crypto hvs).toOption

/-- Rounds increase, and are below the last one of 32 bits, at which the loop of `SetRound` would not
end; votes are for rounds from 0 on. -/
def Call.Proper (hvs : HeightVoteSet) : Call → Prop
  | .setRound round => hvs.round < round ∧ round < 2147483647
  | .addVote vote _ => 0 ≤ vote.round
  | .setPeerMaj23 _ _ _ _ => True

instance (hvs : HeightVoteSet) : ∀ call, Decidable (Call.Proper hvs call)
  | .setRound _ => inferInstanceAs (Decidable (_ ∧ _))
  | .addVote _ _ => inferInstanceAs (Decidable (_ ≤ _))
  | .setPeerMaj23 _ _ _ _ => inferInstanceAs (Decidable True)

/-- The rounds that were made for peers. -/
def catchupRounds (hvs : HeightVoteSet) : Set ℤ := {r | ∃ peerID, r ∈ hvs.peerCatchupRounds peerID}

/-- Which rounds are tracked: those up to the current one, those made for peers, and once `SetRound` was
called, round -1. -/
structure Tracking (hvs : HeightVoteSet) : Prop where
  height : hvs.height ≠ 0
  round : 0 ≤ hvs.round
  rounds : ∀ r, r ∈ roundsOf hvs.roundVoteSets ↔
    0 ≤ r ∧ r ≤ hvs.round ∨ r ∈ hvs.catchupRounds ∨ r = -1 ∧ 0 < hvs.round
  catchup : ∀ peerID, (hvs.peerCatchupRounds peerID).length ≤ 2

theorem Tracking.same (h : Tracking hvs) (hs : Same hvs hvs') : Tracking hvs' := by
  refine ⟨hs.height ▸ h.height, hs.round ▸ h.round, ?_, hs.catchup ▸ h.catchup⟩
  unfold catchupRounds
  rw [hs.rounds, hs.round, hs.catchup]
  exact h.rounds

theorem Tracking.setRound (h : Tracking hvs) {round : ℤ} (hlt : hvs.round < round)
    {sets : ℤ → Option RoundVoteSet}
    (hrounds : roundsOf sets = roundsOf hvs.roundVoteSets ∪ Set.Icc (hvs.round - 1) round) :
    Tracking { hvs with roundVoteSets := sets, round := round } := by
  have hround := h.round
  refine ⟨h.height, by dsimp only; omega, fun r => ?_, h.catchup⟩
  dsimp only [catchupRounds]
  rw [hrounds, Set.mem_union, h.rounds, Set.mem_Icc]
  by_cases hr : r ∈ hvs.catchupRounds
  · exact ⟨fun _ => .inr (.inl hr), fun _ => .inl (.inr (.inl hr))⟩
  · have hr' : ¬∃ peerID, r ∈ hvs.peerCatchupRounds peerID := hr
    simp only [hr, false_or]
    show _ ↔ _ ∨ (∃ peerID, r ∈ hvs.peerCatchupRounds peerID) ∨ _
    simp only [hr', false_or]
    omega

/-- A round is made for a peer that had less than two. -/
theorem Tracking.catchUp (h : Tracking hvs) (peerID : String)
    (hlt : (hvs.peerCatchupRounds peerID).length < 2) (rvs : RoundVoteSet) :
    Tracking { hvs with
      roundVoteSets := update hvs.roundVoteSets r (some rvs)
      peerCatchupRounds := update hvs.peerCatchupRounds peerID
        (hvs.peerCatchupRounds peerID ++ [r]) } := by
  refine ⟨h.height, h.round, fun r' => ?_, fun peerID' => ?_⟩
  · have hcatchup : (∃ p, r' ∈ update hvs.peerCatchupRounds peerID
        (hvs.peerCatchupRounds peerID ++ [r]) p) ↔ r' = r ∨ r' ∈ hvs.catchupRounds := by
      constructor
      · rintro ⟨p, hp⟩
        by_cases hpp : p = peerID
        · rw [hpp, update_self, mem_append, mem_singleton] at hp
          exact hp.symm.imp_right fun hp => ⟨peerID, hp⟩
        · rw [update_of_ne hpp] at hp
          exact .inr ⟨p, hp⟩
      · rintro (rfl | ⟨p, hp⟩)
        · exact ⟨peerID, by simp⟩
        · by_cases hpp : p = peerID
          · exact ⟨p, by simp [hpp ▸ hp, hpp]⟩
          · exact ⟨p, by rwa [update_of_ne hpp]⟩
    show _ ↔ _ ∨ (∃ p, r' ∈ update hvs.peerCatchupRounds peerID _ p) ∨ _
    rw [rounds_update, Set.mem_insert_iff, h.rounds, hcatchup]
    tauto
  · dsimp only
    by_cases hpp : peerID' = peerID
    · rw [hpp, update_self, length_append, length_singleton]
      omega
    · rw [update_of_ne hpp]
      exact h.catchup peerID'

/-- **One call** keeps track of the rounds. -/
theorem Tracking.call (h : Tracking hvs) (crypto : Crypto) {call : Call}
    (hproper : call.Proper hvs) : Leads Tracking (call.apply crypto hvs) := by
  cases call with
  | setRound round =>
    obtain ⟨sets, heq, -, hrounds⟩ := setRound_spec h.height hproper.1
    show Leads Tracking (hvs.setRound round)
    rw [heq]
    exact h.setRound hproper.1 hrounds
  | addVote vote peerID =>
    refine ((addVote_spec h.height vote peerID _).mono fun x hx => ?_).map
    rcases hx with hsame | ⟨hlt, rvs, hsame⟩
    · exact h.same hsame
    · exact (h.catchUp peerID hlt rvs).same hsame
  | setPeerMaj23 round type peerID blockID => exact h.same (setPeerMaj23_same ..)

theorem Tracking.next (h : Tracking hvs) {call : Call} (hproper : call.Proper hvs)
    (hnext : next crypto hvs call = some hvs') : Tracking hvs' := by
  have hcall := h.call crypto hproper
  unfold HeightVoteSet.next at hnext
  cases hx : call.apply crypto hvs with
  | error e =>
    rw [hx] at hnext
    cases hnext
  | ok a =>
    rw [hx] at hnext hcall
    cases hnext
    exact hcall

theorem tracking_start {chainID : String} {height : ℤ} {valSet : ValidatorSet} {ext : Bool}
    (h : newHeightVoteSet chainID height valSet ext = .ok hvs) : Tracking hvs := by
  have hheight : height ≠ 0 := by
    rintro rfl
    cases h
  obtain ⟨rvs, hadd⟩ := @addRound_ok { chainID, height, valSet, extensionsEnabled := ext } 0 rfl
    hheight
  cases h.symm.trans hadd
  refine ⟨hheight, le_rfl, fun r => ?_, fun peerID => Nat.zero_le _⟩
  rw [rounds_update]
  simp [roundsOf, catchupRounds]
  omega

/-- **Round tracking.** After any calls with increasing rounds and votes for rounds from 0 on: from
round 0 on, the tracked rounds are those up to the current one and those recorded for a peer; below,
only -1 can be tracked. A peer has at most two rounds recorded, and once it has two, its votes for other
rounds change nothing. No vote is lost when a round becomes current, and no call finds a round that it
is to make. -/
theorem rounds_tracked {chainID : String} {height : ℤ} {valSet : ValidatorSet} {ext : Bool}
    {start : HeightVoteSet} (hnew : newHeightVoteSet chainID height valSet ext = .ok start)
    (hrun : Steps (next crypto) Call.Proper start hvs) :
    (∀ r, (hvs.roundVoteSets r).isSome = true ↔
      0 ≤ r ∧ r ≤ hvs.round ∨ (∃ peerID, r ∈ hvs.peerCatchupRounds peerID) ∨
        r = -1 ∧ 0 < hvs.round) ∧
    (∀ peerID, (hvs.peerCatchupRounds peerID).length ≤ 2) ∧
    (∀ vote peerID, vote.type.isVoteTypeValid = true → hvs.roundVoteSets vote.round = none →
      (hvs.peerCatchupRounds peerID).length = 2 →
      hvs.addVote crypto vote peerID hvs.extensionsEnabled =
        .ok (hvs, false, some .gotVoteFromUnwantedRound)) ∧
    (∀ round, Call.Proper hvs (.setRound round) → ∃ hvs', hvs.setRound round = .ok hvs' ∧
      ∀ r rvs, hvs.roundVoteSets r = some rvs → hvs'.roundVoteSets r = some rvs) ∧
    ∀ call : Call, call.Proper hvs → call.apply crypto hvs ≠ .error .existingRound := by
  have h : Tracking hvs := hrun.invariant (tracking_start hnew) fun _ _ _ h => h.next
  refine ⟨h.rounds, h.catchup, fun vote peerID htype hnone htwo => ?_, fun round hproper => ?_,
    fun call hproper heq => ?_⟩
  · unfold addVote
    rw [if_neg (not_not.mpr rfl), if_neg (by simp [htype]), hnone]
    exact if_pos htwo.ge
  · obtain ⟨sets, heq, hkeeps, -⟩ := setRound_spec h.height hproper.1
    exact ⟨_, heq, hkeeps⟩
  · have hcall := h.call crypto hproper
    rw [heq] at hcall
    exact hcall rfl

/-- The votes of a height with four validators. -/
def fourHeight : HeightVoteSet where
  chainID := ""
  height := 1
  valSet := Collection.fourValidators
  extensionsEnabled := false
  roundVoteSets := update (fun _ => none) 0
    (some ⟨Collection.fourVotes, { Collection.fourVotes with signedMsgType := .precommit }⟩)

theorem newHeightVoteSet_four :
    newHeightVoteSet "" 1 Collection.fourValidators false = .ok fourHeight := rfl

/-- A peer is a few rounds ahead. -/
theorem rounds_tracked_catchup : ∃ hvs : HeightVoteSet,
    hvs.round = 1 ∧ hvs.peerCatchupRounds "peer" = [5] ∧ (hvs.roundVoteSets 5).isSome = true := by
  obtain ⟨hvs, hrun, hround, hpeer⟩ := exists_of_execWhere (next Collection.plainCrypto) Call.Proper
    fourHeight [.setRound 1, .addVote { Collection.prevote 0 {} with round := 5 } "peer"]
    (fun hvs => hvs.round = 1 ∧ hvs.peerCatchupRounds "peer" = [5]) (by decide +kernel)
  refine ⟨hvs, hround, hpeer, ((rounds_tracked newHeightVoteSet_four hrun).1 5).mpr (.inr (.inl ?_))⟩
  exact ⟨"peer", by rw [hpeer]; exact mem_singleton_self 5⟩

/-- **Round -1 is tracked** after the first call of `SetRound`. -/
theorem negative_round_tracked : ∃ hvs,
    Steps (next Collection.plainCrypto) Call.Proper fourHeight hvs ∧
      (hvs.roundVoteSets (-1)).isSome = true ∧ ∀ peerID, -1 ∉ hvs.peerCatchupRounds peerID :=
  ⟨_, .tail (a := .setRound 1) (.refl _) ⟨by decide, by decide⟩ rfl, rfl,
    fun _ => not_mem_nil⟩

end HeightVoteSet

end CometBFT.Consensus
