import CometBFT.State.State

/-!
# Leaving block sync

Every second `poolRoutine` decides whether the node switches to consensus. It does when the pool has
caught up with the highest peer, and also when the chain cannot go on without this node, as it then
would wait for a block that nobody decides. `localNodeBlocksTheChain` is meant to tell the latter.

A vote set needs `total * 2 / 3 + 1` for a majority, so the others are short of it if this node has a
third of the power. The comparison is with `total / 3`, which is rounded down: with a power of just that,
and a total that is no multiple of three, the others have a majority without this node.

## Main results

* `leaves_only_if_needed` — the comparison is exact if and only if the power is not a third that was
  rounded down
* `leaves_too_early` — one of four validators with equal power leaves
-/

namespace CometBFT.Blocksync

open CometBFT.Types ValidatorSet

/-- `localNodeBlocksTheChain`. -/
def localNodeBlocksTheChain (localAddr : Bytes) (state : Sm.State) : Except Failure Bool :=
  match state.validators.getByAddress localAddr with
  | none => .ok false
  | some (_, val) => do
    let total ← state.validators.getTotalVotingPower
    return total.tdiv 3 ≤ val.votingPower

/-- What `IsCaughtUp` reads of the pool; `timedOut` says that it has run for five seconds. -/
structure Progress where
  peers : ℕ
  height : ℤ
  maxPeerHeight : ℤ
  timedOut : Bool

def Progress.isCaughtUp (pool : Progress) : Bool :=
  pool.peers ≠ 0 ∧ (0 < pool.height ∨ pool.timedOut) ∧
    (pool.maxPeerHeight = 0 ∨ pool.maxPeerHeight - 1 ≤ pool.height)

def voteExtensionsDisabled (state : Sm.State) : Except Failure Bool :=
  if 0 < state.lastBlockHeight then
    (!·) <$> state.consensusParams.feature.voteExtensionsEnabled state.lastBlockHeight
  else .ok false

/-- The case of `switchToConsensusTicker` in `poolRoutine`: whether the node switches to consensus. -/
def switchToConsensus (localAddr : Bytes) (state : Sm.State) (blocksSynced : ℕ)
    (initialCommitHasExtensions : Bool) (pool : Progress) : Except Failure Bool := do
  let disabled ← voteExtensionsDisabled state
  if state.lastBlockHeight = 0 ∨ disabled ∨ 0 < blocksSynced ∨ initialCommitHasExtensions then
    if pool.isCaughtUp then return true
    else localNodeBlocksTheChain localAddr state
  else return false

/-- The validators with another address. -/
def others (localAddr : Bytes) (vals : ValidatorSet) : Finset ℕ :=
  vals.indices.filter fun i => (vals.validators[i]?.map Validator.address) ≠ some localAddr

section

variable {vals : ValidatorSet} {localAddr : Bytes}

theorem weight_others_add (hnodup : (Validators.addresses vals.validators).Nodup) {i : ℕ}
    {val : Validator} (h : vals.validators[i]? = some val) (haddr : val.address = localAddr) :
    weight vals.power (others localAddr vals) + val.votingPower = weight vals.power vals.indices := by
  have hmem : i ∈ vals.indices := Finset.mem_range.mpr (List.getElem?_eq_some_iff.mp h).1
  have hothers : others localAddr vals = vals.indices.erase i := by
    ext j
    rw [others, Finset.mem_filter, Finset.mem_erase, and_comm]
    refine and_congr_left fun hj => not_congr ⟨fun hj' => ?_, ?_⟩
    · obtain ⟨val', hval', haddr'⟩ := Option.map_eq_some_iff.mp hj'
      have hfound := getByAddress_of_nodup hnodup hval'
      rw [haddr', ← haddr, getByAddress_of_nodup hnodup h] at hfound
      cases hfound
      rfl
    · rintro rfl
      rw [h, ← haddr]
      rfl
  rw [hothers, ← power_of_getElem? h]
  exact Finset.sum_erase_add _ _ hmem

theorem others_eq_indices (h : vals.getByAddress localAddr = none) :
    others localAddr vals = vals.indices := by
  refine Finset.filter_eq_self.mpr fun i _ hi => ?_
  obtain ⟨val, hval, haddr⟩ := Option.map_eq_some_iff.mp hi
  have hnone := List.find?_eq_none.mp (Option.map_eq_none_iff.mp h) (val, i)
    (List.mem_zipIdx_iff_getElem?.mpr hval)
  exact hnone (decide_eq_true haddr)

end

/-- The others are short of the power that `countVote` requires. -/
def Needed (localAddr : Bytes) (vals : ValidatorSet) : Prop :=
  weight vals.power (others localAddr vals) < vals.totalVotingPower * 2 / 3 + 1

/-- The power of this node is not a third of the total that was rounded down. -/
def Exact (localAddr : Bytes) (vals : ValidatorSet) : Prop :=
  ∀ p, vals.getByAddress localAddr = some p →
    vals.totalVotingPower % 3 = 0 ∨ p.2.votingPower ≠ vals.totalVotingPower / 3

/-- **Block sync is left early only if it must.** For every state whose validators are as the code makes
them, `localNodeBlocksTheChain` tells whether the others are short of a majority exactly if the power of
this node is not the third of the total that was rounded down. A node that then switches to consensus
without having caught up is needed for every decision. -/
theorem leaves_only_if_needed {state : Sm.State} {localAddr : Bytes} (hvals : state.validators.Valid)
    (hne : state.validators.validators ≠ [])
    (hnodup : (Validators.addresses state.validators.validators).Nodup) :
    ∃ blocks, localNodeBlocksTheChain localAddr state = .ok blocks ∧
      ((blocks = true ↔ Needed localAddr state.validators) ↔ Exact localAddr state.validators) ∧
      (Exact localAddr state.validators → ∀ blocksSynced initialCommitHasExtensions pool,
        switchToConsensus localAddr state blocksSynced initialCommitHasExtensions pool = .ok true →
          pool.isCaughtUp = false → Needed localAddr state.validators) := by
  obtain ⟨blocks, hblocks, hiff⟩ : ∃ blocks, localNodeBlocksTheChain localAddr state = .ok blocks ∧
      ((blocks = true ↔ Needed localAddr state.validators) ↔ Exact localAddr state.validators) := by
    have htotal : state.validators.totalVotingPower =
        weight state.validators.power state.validators.indices := by
      rw [hvals.total, weight_indices]
    have hpos : 0 < state.validators.totalVotingPower := by
      rw [htotal]
      exact Finset.sum_pos (fun i hi => hvals.power_pos hi)
        (Finset.nonempty_range_iff.mpr (mt List.length_eq_zero_iff.mp hne))
    unfold localNodeBlocksTheChain Needed Exact
    cases hget : state.validators.getByAddress localAddr with
    | none =>
      refine ⟨false, rfl, iff_of_true ?_ nofun⟩
      rw [others_eq_indices hget, ← htotal]
      simp only [Bool.false_eq_true, false_iff]
      omega
    | some p =>
      obtain ⟨i, val⟩ := p
      obtain ⟨hval, haddr⟩ := of_getByAddress hget
      have hsum := weight_others_add hnodup hval haddr
      dsimp only
      rw [bind_of_ok hvals.getTotalVotingPower]
      refine ⟨_, rfl, ?_⟩
      rw [decide_eq_true_iff, ← htotal, Int.tdiv_eq_ediv_of_nonneg hpos.le]
      simp only [Option.some.injEq, forall_eq']
      omega
  refine ⟨blocks, hblocks, hiff, fun hexact blocksSynced has pool hswitch hbehind => ?_⟩
  unfold switchToConsensus at hswitch
  obtain ⟨disabled, -, hswitch⟩ := ok_of_bind hswitch
  split_ifs at hswitch with hready hcaught
  · exact absurd hbehind (by simp [hcaught])
  · rw [hblocks] at hswitch
    exact (hiff.mpr hexact).mp (Except.ok.inj hswitch)
  · cases hswitch

/-- At genesis, with validators of these powers. -/
def stateWith (powers : List ℤ) : Sm.State :=
  let vals : ValidatorSet := {
    validators := powers.mapIdx fun i power => ⟨[UInt8.ofNat i], none, power, 0⟩
    proposer := none
    totalVotingPower := powers.sum }
  { version := ⟨⟨0, 0⟩, ""⟩, chainID := "", initialHeight := 1, lastBlockHeight := 0
    lastBlockID := {}, lastBlockTime := 0, nextValidators := vals, validators := vals
    lastValidators := vals, lastHeightValidatorsChanged := 1, consensusParams := defaultConsensusParams
    lastHeightConsensusParamsChanged := 1, lastResultsHash := [], appHash := [] }

theorem leaves_only_if_needed_three : Exact [0] (stateWith [1, 1, 1]).validators ∧
    ∃ blocks, localNodeBlocksTheChain [0] (stateWith [1, 1, 1]) = .ok blocks ∧
      (blocks = true ↔ Needed [0] (stateWith [1, 1, 1]).validators) := by
  obtain ⟨blocks, hblocks, hiff, -⟩ := @leaves_only_if_needed (stateWith [1, 1, 1]) [0]
    ⟨by decide, by decide⟩ (by decide) (by decide)
  have hexact : Exact [0] (stateWith [1, 1, 1]).validators := fun _ _ => .inl (by decide)
  exact ⟨hexact, blocks, hblocks, hiff.mpr hexact⟩

/-- **Left too early.** Of four validators with equal power, the first switches to consensus at height
1 while its peers are at height 100, although the other three have a majority. -/
theorem leaves_too_early : (stateWith [1, 1, 1, 1]).validators.Valid ∧
    switchToConsensus [0] (stateWith [1, 1, 1, 1]) 0 false ⟨3, 1, 100, true⟩ = .ok true ∧
    Progress.isCaughtUp ⟨3, 1, 100, true⟩ = false ∧
    ¬ Needed [0] (stateWith [1, 1, 1, 1]).validators :=
  ⟨⟨by decide, by decide⟩, by decide, by decide, by unfold Needed; decide⟩

end CometBFT.Blocksync
