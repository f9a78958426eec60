import CometBFT.Lib.Checkpoint
import CometBFT.State.Proto

/-!
# The state store

The model of `state/store.go`: the last state, and by height the validator sets, the consensus
parameters and the answers of the application. A validator set is stored in full only where it changed
and at every 100000th height; for other heights it is rebuilt from the last one that was.

Pruning collects its writes in batches. An error leaves the batches that were written before.

## Main results

* `Store.save_eq` — what `Save` writes
* `Store.load_save` — `Load` gives the saved state back
-/

namespace CometBFT.Sm

open CometBFT.Types
open Function (update)

/-! ### The store -/

structure ValidatorsInfo where
  lastHeightChanged : ℤ
  /-- None if the set is not stored at this height. -/
  validatorSet : Option ValidatorSetProto
deriving DecidableEq, Repr

structure ConsensusParamsInfo where
  lastHeightChanged : ℤ
  /-- None, an empty message in the source, if the parameters are not stored at this height. -/
  consensusParams : Option ConsensusParams
deriving DecidableEq, Repr

/-- `dbStore`. -/
structure Store where
  state : Option StateProto := none
  validators : ℤ → Option ValidatorsInfo := fun _ => none
  params : ℤ → Option ConsensusParamsInfo := fun _ => none
  responses : ℤ → Option FinalizeBlockResponse := fun _ => none

def valSetCheckpointInterval : ℤ := 100000

def lastStoredHeightFor (height lastHeightChanged : ℤ) : ℤ :=
  Checkpoint.lastStored valSetCheckpointInterval height lastHeightChanged

namespace Store

variable (store : Store)

def saveValidatorsInfo (height lastHeightChanged : ℤ) (valSet : ValidatorSet) :
    Except Fault Store :=
  if height < lastHeightChanged then .error (.err .lastHeightChanged)
  else if Checkpoint.Full valSetCheckpointInterval height lastHeightChanged then do
    let pv ← validatorSetToProto valSet
    return { store with
      validators := update store.validators height (some ⟨lastHeightChanged, some pv⟩) }
  else
    return { store with
      validators := update store.validators height (some ⟨lastHeightChanged, none⟩) }

def saveConsensusParamsInfo (nextHeight changeHeight : ℤ) (params : ConsensusParams) : Store :=
  { store with
    params := update store.params nextHeight
      (some ⟨changeHeight, if changeHeight = nextHeight then some params else none⟩) }

/-- What `save` does before the first block: the validators for it are saved as well. -/
def saveFirst (state : State) : Except Fault Store :=
  if state.lastBlockHeight + 1 = 1 then
    store.saveValidatorsInfo state.initialHeight state.initialHeight state.validators
  else .ok store

/-- `Save`. The writes are one batch. -/
def save (state : State) : Except Fault Store := do
  let nextHeight :=
    if state.lastBlockHeight + 1 = 1 then state.initialHeight else state.lastBlockHeight + 1
  let store ← store.saveFirst state
  let store ← store.saveValidatorsInfo (nextHeight + 1) state.lastHeightValidatorsChanged
    state.nextValidators
  let store := store.saveConsensusParamsInfo nextHeight state.lastHeightConsensusParamsChanged
    state.consensusParams
  let bytes ← state.bytes
  return { store with state := some bytes }

/-- `Load`; none if nothing was saved. -/
def load (crypto : Crypto) : Except Fault (Option State) :=
  match store.state with
  | none => .ok none
  | some pb => some <$> stateFromProto crypto pb

/-- `SafeConvertInt32`. -/
def safeConvertInt32 (a : ℤ) : Except Fault ℤ :=
  if 2147483647 < a ∨ a < -2147483648 then .error (.panic "int32 overflow") else .ok a

/-- The end of `LoadValidators`, for a set that is `height - lastStoredHeight` heights old. -/
def rebuildValidators (crypto : Crypto) (vp : ValidatorSetProto) (times : ℤ) :
    Except Fault ValidatorSet := do
  let vs ← validatorSetFromProto crypto vp
  let times ← safeConvertInt32 times
  let vs ← lift (vs.incrementProposerPriority times)
  let vi2 ← validatorSetToProto vs
  validatorSetFromProto crypto vi2

def loadValidators (crypto : Crypto) (height : ℤ) : Except Fault ValidatorSet :=
  match store.validators height with
  | none => .error (.err (.noValSetForHeight height))
  | some ⟨_, some vp⟩ => validatorSetFromProto crypto vp
  | some ⟨lastHeightChanged, none⟩ =>
    let lastStoredHeight := lastStoredHeightFor height lastHeightChanged
    match store.validators lastStoredHeight with
    | some ⟨_, some vp⟩ => rebuildValidators crypto vp (height - lastStoredHeight)
    | _ => .error (.err (.validatorsNotFound lastStoredHeight height))

def loadConsensusParams (height : ℤ) : Except Fault ConsensusParams :=
  match store.params height with
  | none => .error (.err (.paramsNotFound height))
  | some ⟨_, some params⟩ => .ok params
  | some ⟨lastHeightChanged, none⟩ =>
    match store.params lastHeightChanged with
    | none => .error (.err (.lastParamsNotFound lastHeightChanged height))
    | some ⟨_, some params⟩ => .ok params
    -- the fields of the empty message are nil
    | some ⟨_, none⟩ => .error (.panic nilDereference)

/-- `SaveFinalizeBlockResponse`, with the option `DiscardABCIResponses`. -/
def saveFinalizeBlockResponse (discardABCIResponses : Bool) (height : ℤ)
    (resp : FinalizeBlockResponse) : Store :=
  let kept := if discardABCIResponses ∧ 1 < height then update store.responses (height - 1) none
    else store.responses
  { store with responses := update kept height (some resp) }

/-- `LoadLastFinalizeBlockResponse`, without the deprecated key. -/
def loadLastFinalizeBlockResponse (height : ℤ) : Except Fault FinalizeBlockResponse :=
  match store.responses height with
  | none => .error (.err (.noLastABCIResponse height))
  | some resp => .ok resp

end Store

/-! ### What is saved -/

/-- The entry for a height whose set has not changed since `lastHeightChanged`. -/
def validatorsEntry (height lastHeightChanged : ℤ) (vals : ValidatorSet) : ValidatorsInfo :=
  ⟨lastHeightChanged, if Checkpoint.Full valSetCheckpointInterval height lastHeightChanged then
    some (protoOf vals) else none⟩

/-- The validators for the first two heights are saved together. -/
def Store.withFirst (store : Store) (state : State) : ℤ → Option ValidatorsInfo :=
  if state.lastBlockHeight = 0 then
    update store.validators state.initialHeight
      (some (validatorsEntry state.initialHeight state.initialHeight state.validators))
  else store.validators

namespace Store

variable {store : Store} {crypto : Crypto} {state : State}

theorem saveValidatorsInfo_eq {vals : ValidatorSet} (h : Storable crypto vals) {height c : ℤ}
    (hc : c ≤ height) : store.saveValidatorsInfo height c vals = .ok { store with
      validators := update store.validators height (some (validatorsEntry height c vals)) } := by
  unfold saveValidatorsInfo validatorsEntry
  rw [if_neg (not_lt.mpr hc)]
  split
  · rw [bind_of_ok h.toProto]
    rfl
  · rfl

theorem saveFirst_eq (h : StorableState crypto state) :
    store.saveFirst state = .ok { store with validators := store.withFirst state } := by
  unfold saveFirst withFirst
  by_cases hzero : state.lastBlockHeight = 0
  · rw [if_pos (by omega), if_pos hzero, saveValidatorsInfo_eq h.validators le_rfl]
  · rw [if_neg (by omega), if_neg hzero]

/-- **What `Save` writes**: the state, the validators for the height after the next one, and the
parameters for the next one. -/
theorem save_eq (h : StorableState crypto state)
    (hc : state.lastHeightValidatorsChanged ≤ state.nextHeight + 1) :
    store.save state = .ok {
      state := some (stateProtoOf state)
      validators := update (store.withFirst state) (state.nextHeight + 1)
        (some (validatorsEntry (state.nextHeight + 1) state.lastHeightValidatorsChanged
          state.nextValidators))
      params := update store.params state.nextHeight (some
        ⟨state.lastHeightConsensusParamsChanged,
          if state.lastHeightConsensusParamsChanged = state.nextHeight then
            some state.consensusParams else none⟩)
      responses := store.responses } := by
  have hnext : (if state.lastBlockHeight + 1 = 1 then state.initialHeight
      else state.lastBlockHeight + 1) = state.nextHeight := by
    unfold State.nextHeight
    by_cases hzero : state.lastBlockHeight = 0
    · rw [if_pos (by omega), if_pos hzero]
    · rw [if_neg (by omega), if_neg hzero]
  unfold save
  dsimp only
  rw [hnext, bind_of_ok (saveFirst_eq h), bind_of_ok (saveValidatorsInfo_eq h.nextValidators hc),
    bind_of_ok h.bytes]
  rfl

/-- **`Load` gives the saved state back.** -/
theorem load_save (h : StorableState crypto state)
    (hid : state.lastBlockID.validateBasic = true)
    (hstate : store.state = some (stateProtoOf state)) : store.load crypto = .ok (some state) := by
  unfold load
  rw [hstate]
  show some <$> stateFromProto crypto (stateProtoOf state) = _
  rw [h.fromProto hid]
  rfl

end Store

/-! ### Pruning -/

/-- A write of a batch. -/
inductive Write where
  | setValidators (height : ℤ) (info : Option ValidatorsInfo)
  | setParams (height : ℤ) (info : Option ConsensusParamsInfo)
  | deleteResponse (height : ℤ)

namespace Store

def apply (store : Store) : Write → Store
  | .setValidators height info => { store with validators := update store.validators height info }
  | .setParams height info => { store with params := update store.params height info }
  | .deleteResponse height => { store with responses := update store.responses height none }

variable (store : Store)

/-- What `PruneStates` does with the validators at a height. -/
def pruneValidators (crypto : Crypto) (keep : Bool) (evidenceThresholdHeight h : ℤ) :
    Except Fault (List Write) :=
  if keep then
    match store.validators h with
    | some ⟨_, some _⟩ => .ok []
    | _ => do
      let vip ← store.loadValidators crypto h
      let pvi ← validatorSetToProto vip
      return [.setValidators h (some ⟨h, some pvi⟩)]
  else if h < evidenceThresholdHeight then .ok [.setValidators h none]
  else .ok []

/-- What `PruneStates` does with the parameters at a height. -/
def pruneParams (keep : Bool) (h : ℤ) : Except Fault (List Write) :=
  if keep then
    match store.params h with
    | none => .error (.err (.paramsNotFound h))
    | some ⟨_, some _⟩ => .ok []
    | some ⟨_, none⟩ => do
      let params ← store.loadConsensusParams h
      return [.setParams h (some ⟨h, some params⟩)]
  else .ok [.setParams h none]

/-- The heights that `PruneStates` keeps. -/
structure Keep where
  vals : ℤ → Bool
  params : ℤ → Bool

/-- The writes for one height. -/
def pruneHeight (crypto : Crypto) (keep : Keep) (evidenceThresholdHeight h : ℤ) :
    Except Fault (List Write) := do
  let vals ← store.pruneValidators crypto (keep.vals h) evidenceThresholdHeight h
  let params ← store.pruneParams (keep.params h) h
  return vals ++ params ++ [.deleteResponse h]

/-- The loop of `PruneStates`, down from `start + n - 1` to `start`: the store, how many heights were
pruned, and why the loop ended early. A batch is written every 1000 heights. -/
def pruneLoop (crypto : Crypto) (keep : Keep) (evidenceThresholdHeight start : ℤ) :
    ℕ → Store → List Write → ℕ → Store × ℕ × Option Fault
  | 0, store, batch, pruned => (batch.foldl apply store, pruned, none)
  | n + 1, store, batch, pruned =>
    match store.pruneHeight crypto keep evidenceThresholdHeight (start + n) with
    | .error e => (store, pruned, some e)
    | .ok writes =>
      if (pruned + 1) % 1000 = 0 then
        pruneLoop crypto keep evidenceThresholdHeight start n ((batch ++ writes).foldl apply store)
          [] (pruned + 1)
      else
        pruneLoop crypto keep evidenceThresholdHeight start n store (batch ++ writes) (pruned + 1)

/-- What is kept, from what is stored for the height that retention starts at and for `stop`. -/
def keepFor (stop : ℤ) (valInfo : ValidatorsInfo) (paramsInfo : ConsensusParamsInfo) : Keep where
  vals h := valInfo.validatorSet = none ∧
    (h = valInfo.lastHeightChanged ∨ h = lastStoredHeightFor stop valInfo.lastHeightChanged)
  params h := paramsInfo.consensusParams = none ∧ h = paramsInfo.lastHeightChanged

/-- `PruneStates`, from `start` to `stop`. -/
def pruneStates (crypto : Crypto) (start stop evidenceThresholdHeight : ℤ) :
    Store × ℕ × Option Fault :=
  if start ≤ 0 ∨ stop ≤ 0 ∨ stop ≤ start then (store, 0, some (.err (.pruneHeights start stop)))
  else match store.validators (min stop evidenceThresholdHeight) with
  | none => (store, 0, some (.err (.noValSetForHeight stop)))
  | some valInfo =>
    match store.params stop with
    | none => (store, 0, some (.err (.paramsNotFound stop)))
    | some paramsInfo =>
      pruneLoop crypto (keepFor stop valInfo paramsInfo) evidenceThresholdHeight start
        (stop - start).toNat store [] 0

end Store

end CometBFT.Sm
