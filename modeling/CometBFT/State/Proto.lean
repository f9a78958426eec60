import CometBFT.State.State
import CometBFT.Types.Shape

/-!
# Stored forms

The protobuf forms of validator sets and states (`types/validator_set.go`, `state/state.go`). That of
a set has neither the total power nor whether the keys have one type; both are computed when a set is
decoded, and the set is checked.

A key type that is not known is an error in the source when it is encoded, and the bytes of a key are
checked only when they are decoded. So not every set can be read that was written; the sets of a chain
can.

## Main results

* `Storable.toProto`, `Storable.fromProto` — a set of a chain is read as it was written
* `Coded.increment`, `coded_of_update` — increments and changes lead to such sets
* `StorableState.fromProto` — a state of a chain is read as it was written
-/

namespace CometBFT.Sm

open CometBFT.Types Validators

/-! ### The stored form of a validator set -/

structure ValidatorSetProto where
  validators : List Validator := []
  proposer : Option Validator := none
deriving DecidableEq, Repr

/-- `PubKeyFromTypeAndBytes`, whether it gives a key. -/
def decodesKey (key : PubKey) : Bool :=
  key.type = ed25519KeyType ∧ key.bytes.length = 32 ∨
    key.type = "secp256k1" ∧ key.bytes.length = 33

/-- `Validator.ToProto`. -/
def validatorToProto (v : Option Validator) : Except Fault Validator :=
  match v with
  | none => .error (.err .nilValidator)
  | some v => if v.pubKey = none then .error (.err .nilValidator) else .ok v

/-- `ValidatorFromProto`; where the key is not decoded, another field is tried, which is nil. -/
def validatorFromProto (v : Option Validator) : Except Fault Validator :=
  match v with
  | none => .error (.err .nilValidator)
  | some v =>
    if v.pubKey.any decodesKey then .ok v
    else .error (.panic nilDereference)

/-- `ValidatorSet.ToProto`. -/
def validatorSetToProto (vals : ValidatorSet) : Except Fault ValidatorSetProto :=
  if vals.validators = [] then .ok {}
  else do
    let validators ← vals.validators.mapM fun v => validatorToProto (some v)
    let proposer ← validatorToProto vals.proposer
    return ⟨validators, some proposer⟩

def validatorSetFromProto (crypto : Crypto) (vp : ValidatorSetProto) : Except Fault ValidatorSet := do
  let validators ← vp.validators.mapM fun v => validatorFromProto (some v)
  let allKeysHaveSameType ← lift (checkAllKeysHaveSameType "" validators)
  let proposer ← validatorFromProto vp.proposer
  let totalVotingPower ← lift (updateTotalVotingPower validators)
  let vals : ValidatorSet := ⟨validators, some proposer, totalVotingPower, allKeysHaveSameType⟩
  if vals.validateBasic crypto then return vals else .error (.err .invalidValidatorSet)

/-! ### Sets that are read as they were written -/

/-- The validator has a key that can be decoded, and the address of that key. -/
def Keyed (crypto : Crypto) (v : Validator) : Prop :=
  ∃ key, v.pubKey = some key ∧ decodesKey key = true ∧ v.address = crypto.address key

variable {crypto : Crypto} {vals vals' : ValidatorSet} {v : Validator}

theorem Keyed.of_shape {v' : Validator} (h : Keyed crypto v) (hshape : v'.shape = v.shape) :
    Keyed crypto v' := by
  obtain ⟨key, hkey, hdec, haddr⟩ := h
  have haddr' : v'.address = v.address := congrArg Prod.fst hshape
  have hkey' : v'.pubKey = v.pubKey := congrArg (fun x => x.2.1) hshape
  exact ⟨key, hkey'.trans hkey, hdec, haddr'.trans haddr⟩

theorem keyed_of_shape {l l' : List Validator} (h : ∀ v ∈ l, Keyed crypto v)
    (hshape : l'.map Validator.shape = l.map Validator.shape) : ∀ v ∈ l', Keyed crypto v := by
  intro v' hv'
  obtain ⟨v, hv, heq⟩ := List.mem_map.mp (hshape ▸ List.mem_map_of_mem hv')
  exact (h v hv).of_shape heq.symm

theorem decodesKey_iff {key : PubKey} : decodesKey key = true ↔
    key.type = ed25519KeyType ∧ key.bytes.length = 32 ∨
      key.type = "secp256k1" ∧ key.bytes.length = 33 :=
  decide_eq_true_iff

theorem Keyed.keyType_ne (h : Keyed crypto v) : v.keyType ≠ "" := by
  obtain ⟨key, hkey, hdec, -⟩ := h
  rw [Validator.keyType, hkey]
  show key.type ≠ ""
  rcases decodesKey_iff.mp hdec with ⟨htype, -⟩ | ⟨htype, -⟩
  · rw [htype]
    decide
  · rw [htype]
    decide

theorem Keyed.validateBasic (h : Keyed crypto v) (hpos : 0 < v.votingPower) :
    v.validateBasic crypto = true := by
  obtain ⟨key, hkey, hdec, haddr⟩ := h
  unfold Validator.validateBasic
  rw [hkey]
  refine decide_eq_true ⟨hpos.le, haddr, ?_⟩
  rcases decodesKey_iff.mp hdec with ⟨htype, -⟩ | ⟨htype, -⟩
  · rw [htype]
    decide
  · rw [htype]
    decide

theorem Keyed.validatorToProto (h : Keyed crypto v) :
    validatorToProto (some v) = .ok v := by
  obtain ⟨key, hkey, -, -⟩ := h
  exact if_neg (hkey ▸ Option.some_ne_none key)

theorem Keyed.validatorFromProto (h : Keyed crypto v) :
    validatorFromProto (some v) = .ok v := by
  obtain ⟨key, hkey, hdec, -⟩ := h
  exact if_pos (by rw [hkey]; exact hdec)

/-- What is computed when the set is decoded is what the set has. -/
structure Coded (crypto : Crypto) (vals : ValidatorSet) : Prop where
  nonempty : vals.validators ≠ []
  pos : ∀ v ∈ vals.validators, 0 < v.votingPower
  total : vals.totalVotingPower = powerSum vals.validators
  total_le : powerSum vals.validators ≤ maxTotalVotingPower
  keyed : ∀ v ∈ vals.validators, Keyed crypto v
  sameType : checkAllKeysHaveSameType "" vals.validators = .ok vals.allKeysHaveSameType

/-- The proposer is one of the validators as well. -/
structure Storable (crypto : Crypto) (vals : ValidatorSet) : Prop extends Coded crypto vals where
  proposer : ∃ m ∈ vals.validators, vals.proposer = some m

/-- The stored form. -/
def protoOf (vals : ValidatorSet) : ValidatorSetProto := ⟨vals.validators, vals.proposer⟩

/-- After an increment the proposer is. -/
theorem Coded.rotated (h : Coded crypto vals) (hr : Rotated vals vals') : Storable crypto vals' where
  nonempty := ne_nil_of_shape hr.shape h.nonempty
  pos := power_of_shape hr.shape h.pos
  total := by rw [hr.total, h.total, powerSum_of_shape hr.shape]
  total_le := (powerSum_of_shape hr.shape).trans_le h.total_le
  keyed := keyed_of_shape h.keyed hr.shape
  sameType := by rw [checkAllKeysHaveSameType_of_shape hr.shape, h.sameType, hr.sameType]
  proposer := hr.proposer

namespace Storable

theorem toProto (h : Storable crypto vals) : validatorSetToProto vals = .ok (protoOf vals) := by
  obtain ⟨m, hm, hproposer⟩ := h.proposer
  unfold validatorSetToProto protoOf
  rw [if_neg h.nonempty, mapM_eq_self fun v hv => (h.keyed v hv).validatorToProto, hproposer]
  show (validatorToProto (some m) >>= _) = _
  rw [(h.keyed m hm).validatorToProto]
  rfl

theorem validateBasic (h : Storable crypto vals) : vals.validateBasic crypto = true := by
  obtain ⟨m, hm, hproposer⟩ := h.proposer
  have hall : ∀ v ∈ vals.validators, v.validateBasic crypto = true :=
    fun v hv => (h.keyed v hv).validateBasic (h.pos v hv)
  unfold ValidatorSet.validateBasic
  rw [hproposer]
  refine decide_eq_true ⟨h.nonempty, hall, hall m hm, ?_⟩
  exact List.any_eq_true.mpr ⟨m, hm, decide_eq_true rfl⟩

/-- **A set is read as it was written.** -/
theorem fromProto (h : Storable crypto vals) :
    validatorSetFromProto crypto (protoOf vals) = .ok vals := by
  obtain ⟨m, hm, hproposer⟩ := h.proposer
  have htotal := updateTotalVotingPower_of_le (fun v hv => (h.pos v hv).le) h.total_le
  unfold validatorSetFromProto protoOf
  rw [mapM_eq_self fun v hv => (h.keyed v hv).validatorFromProto]
  show (lift (checkAllKeysHaveSameType "" vals.validators) >>= _) = _
  rw [h.sameType]
  show (validatorFromProto vals.proposer >>= _) = _
  rw [hproposer, (h.keyed m hm).validatorFromProto]
  show (lift (updateTotalVotingPower vals.validators) >>= _) = _
  rw [htotal, ← h.total]
  show (if ValidatorSet.validateBasic crypto ⟨vals.validators, some m, vals.totalVotingPower,
    vals.allKeysHaveSameType⟩ = true then _ else _) = _
  rw [← hproposer]
  exact if_pos h.validateBasic

end Storable

/-! ### The sets of a chain -/

/-- A set of a chain: it is read as it was written, and can be incremented and changed. -/
structure Live (crypto : Crypto) (vals : ValidatorSet) : Prop extends
  Storable crypto vals, vals.Sound

theorem Coded.increment (h : Coded crypto vals) (hs : vals.Sound) :
    ∃ vals', vals.incrementProposerPriority 1 = .ok vals' ∧ Live crypto vals' ∧
      Rotated vals vals' := by
  obtain ⟨-, shifted, ks, vals', hinc, hs'⟩ := hs.increment h.nonempty Int.one_pos (moderate_one hs)
  have hr := rotated_of_incrementProposerPriority hs.nodup hinc.eq
  exact ⟨vals', hinc.eq, ⟨h.rotated hr, hs'.nodup, hs'.centred, hs'.low, hs'.high⟩, hr⟩

/-- A change with keys that can be decoded, of a set with such keys or of the empty one. -/
theorem coded_of_update {changes : List Validator} {allowDeletes : Bool} (hs : vals.Sound)
    (hkeyed : ∀ v ∈ vals.validators, Keyed crypto v) (hne : changes ≠ [])
    (hchanges : ∀ v ∈ changes, Keyed crypto v)
    (hupd : vals.updateWithChangeSet changes allowDeletes = .ok vals') :
    vals'.Sound ∧ Coded crypto vals' := by
  obtain ⟨-, hs', hne', -⟩ := hs.update hne hupd
  refine ⟨hs', ?_⟩
  obtain ⟨tvp, merged, keys, total, rescaled, shifted, happly, hkeys, -, hrescale, hshift, rfl⟩ :=
    (updateWithChangeSet_eq_ok_iff hne).mp hupd
  have hshape := (shape_of_shiftByAvg hshift).trans (shape_of_rescalePriorities hrescale)
  have hperm := sortByVotingPower_perm shifted
  have hmerged : ∀ v ∈ merged, Keyed crypto v := by
    intro v hv
    rcases mem_of_applyChangeSet happly hv with hv | ⟨u, hu, huv⟩
    · exact hkeyed v hv
    · exact (hchanges u hu).of_shape huv.symm
  have hshifted := keyed_of_shape hmerged hshape
  refine ⟨hne', hs'.pos, hs'.total, hs'.total_le, fun v hv => hshifted v (hperm.mem_iff.mp hv), ?_⟩
  rw [checkAllKeysHaveSameType_perm hperm.symm fun v hv => (hshifted v hv).keyType_ne,
    checkAllKeysHaveSameType_of_shape hshape, hkeys]

/-- The sets for the first two heights. -/
theorem live_of_initialValidatorSets {valz : List Validator} (hne : valz ≠ [])
    (hvalz : ∀ v ∈ valz, Keyed crypto v) (h : initialValidatorSets valz = .ok (vals, vals')) :
    Live crypto vals ∧ Live crypto vals' ∧ vals.incrementProposerPriority 1 = .ok vals' := by
  obtain ⟨first, hfirst, h⟩ := ok_of_bind h
  obtain ⟨second, hsecond, h⟩ := ok_of_bind h
  obtain ⟨rfl, rfl⟩ := Prod.mk.inj (Except.ok.inj h)
  have hnew := lift_eq_ok.mp hfirst
  unfold newValidatorSet at hnew
  split at hnew
  · cases hnew
  · cases hnew
  rename_i base hbase
  rw [if_pos hne] at hnew
  obtain ⟨hs, hcoded⟩ := coded_of_update sound_empty
    nofun hne hvalz hbase
  obtain ⟨first', hinc, hlive, -⟩ := hcoded.increment hs
  obtain rfl : first' = first := Except.ok.inj (hinc.symm.trans hnew)
  obtain ⟨second', hinc', hlive', -⟩ := hlive.toCoded.increment hlive.toSound
  obtain rfl : second' = second := Except.ok.inj (hinc'.symm.trans (lift_eq_ok.mp hsecond))
  exact ⟨hlive, hlive', hinc'⟩

/-! ### The stored form of a state -/

structure StateProto where
  version : StateVersion
  chainID : String
  initialHeight : ℤ
  lastBlockHeight : ℤ
  lastBlockID : BlockID
  lastBlockTime : Time
  nextValidators : ValidatorSetProto
  validators : ValidatorSetProto
  /-- None before the first block. -/
  lastValidators : Option ValidatorSetProto
  lastHeightValidatorsChanged : ℤ
  consensusParams : ConsensusParams
  lastHeightConsensusParamsChanged : ℤ
  lastResultsHash : Bytes
  appHash : Bytes
deriving DecidableEq, Repr

/-- The validators of the last block in `ToProto`; there are none before the first block. -/
def State.lastValidatorsToProto (state : State) : Except Fault (Option ValidatorSetProto) :=
  if 1 ≤ state.lastBlockHeight then some <$> validatorSetToProto state.lastValidators else .ok none

/-- `State.ToProto`. -/
def State.toProto (state : State) : Except Fault StateProto := do
  let validators ← validatorSetToProto state.validators
  let nextValidators ← validatorSetToProto state.nextValidators
  let lastValidators ← state.lastValidatorsToProto
  return {
    version := state.version
    chainID := state.chainID
    initialHeight := state.initialHeight
    lastBlockHeight := state.lastBlockHeight
    lastBlockID := state.lastBlockID
    lastBlockTime := state.lastBlockTime
    nextValidators := nextValidators
    validators := validators
    lastValidators := lastValidators
    lastHeightValidatorsChanged := state.lastHeightValidatorsChanged
    consensusParams := state.consensusParams
    lastHeightConsensusParamsChanged := state.lastHeightConsensusParamsChanged
    lastResultsHash := state.lastResultsHash
    appHash := state.appHash }

/-- `State.Bytes`, an error of which is a panic. -/
def State.bytes (state : State) : Except Fault StateProto :=
  state.toProto.mapError fun _ => .panic "cannot encode the state"

/-- The validators of the last block in `FromProto`; a missing set cannot be decoded. -/
def lastValidatorsFromProto (crypto : Crypto) (pb : StateProto) : Except Fault ValidatorSet :=
  if 1 ≤ pb.lastBlockHeight then
    match pb.lastValidators with
    | none => .error (.err .nilValidator)
    | some vp => validatorSetFromProto crypto vp
  else lift (newValidatorSet [])

/-- `FromProto`. -/
def stateFromProto (crypto : Crypto) (pb : StateProto) : Except Fault State :=
  if pb.lastBlockID.validateBasic = false then .error (.err .invalidBlockID)
  else do
    let validators ← validatorSetFromProto crypto pb.validators
    let nextValidators ← validatorSetFromProto crypto pb.nextValidators
    let lastValidators ← lastValidatorsFromProto crypto pb
    return {
      version := pb.version
      chainID := pb.chainID
      initialHeight := pb.initialHeight
      lastBlockHeight := pb.lastBlockHeight
      lastBlockID := pb.lastBlockID
      lastBlockTime := pb.lastBlockTime
      nextValidators := nextValidators
      validators := validators
      lastValidators := lastValidators
      lastHeightValidatorsChanged := pb.lastHeightValidatorsChanged
      consensusParams := pb.consensusParams
      lastHeightConsensusParamsChanged := pb.lastHeightConsensusParamsChanged
      lastResultsHash := pb.lastResultsHash
      appHash := pb.appHash }

/-! ### States that are read as they were written -/

/-- The sets of the state are read as they were written. Before the first block there are no
validators of the last block. -/
structure StorableState (crypto : Crypto) (state : State) : Prop where
  validators : Storable crypto state.validators
  nextValidators : Storable crypto state.nextValidators
  lastValidators : 1 ≤ state.lastBlockHeight → Storable crypto state.lastValidators
  first : ¬1 ≤ state.lastBlockHeight → newValidatorSet [] = .ok state.lastValidators

/-- The stored form. -/
def stateProtoOf (state : State) : StateProto where
  version := state.version
  chainID := state.chainID
  initialHeight := state.initialHeight
  lastBlockHeight := state.lastBlockHeight
  lastBlockID := state.lastBlockID
  lastBlockTime := state.lastBlockTime
  nextValidators := protoOf state.nextValidators
  validators := protoOf state.validators
  lastValidators := if 1 ≤ state.lastBlockHeight then some (protoOf state.lastValidators) else none
  lastHeightValidatorsChanged := state.lastHeightValidatorsChanged
  consensusParams := state.consensusParams
  lastHeightConsensusParamsChanged := state.lastHeightConsensusParamsChanged
  lastResultsHash := state.lastResultsHash
  appHash := state.appHash

namespace StorableState

variable {state : State}

theorem bytes (h : StorableState crypto state) : state.bytes = .ok (stateProtoOf state) := by
  have hlast : state.lastValidatorsToProto = .ok (stateProtoOf state).lastValidators := by
    unfold State.lastValidatorsToProto stateProtoOf
    dsimp only
    split
    · rw [(h.lastValidators ‹_›).toProto]
      rfl
    · rfl
  have hproto : state.toProto = .ok (stateProtoOf state) := by
    unfold State.toProto
    rw [bind_of_ok h.validators.toProto, bind_of_ok h.nextValidators.toProto, bind_of_ok hlast]
    rfl
  rw [State.bytes, hproto]
  rfl

/-- **A state is read as it was written.** -/
theorem fromProto (h : StorableState crypto state)
    (hid : state.lastBlockID.validateBasic = true) :
    stateFromProto crypto (stateProtoOf state) = .ok state := by
  have hlast : lastValidatorsFromProto crypto (stateProtoOf state) = .ok state.lastValidators := by
    unfold lastValidatorsFromProto stateProtoOf
    dsimp only
    split
    · exact (h.lastValidators ‹_›).fromProto
    · exact lift_eq_ok.mpr (h.first ‹_›)
  have hid' : (stateProtoOf state).lastBlockID.validateBasic = true := hid
  unfold stateFromProto
  rw [if_neg (ne_false_of_eq_true hid'),
    bind_of_ok (show validatorSetFromProto crypto (stateProtoOf state).validators = _ from
      h.validators.fromProto),
    bind_of_ok (show validatorSetFromProto crypto (stateProtoOf state).nextValidators = _ from
      h.nextValidators.fromProto), bind_of_ok hlast]
  rfl

end StorableState

end CometBFT.Sm
