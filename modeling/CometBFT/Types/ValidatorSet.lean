import CometBFT.Lib.Int64

/-!
# Validator sets

The model of `types/validator.go` and `types/validator_set.go`: a set of validators with voting
powers and proposer priorities, how it is changed by the application, and how the proposer rotates.

A validator of the source is a pointer. The addresses of a set are distinct, so that the address
stands for the pointer here: to lower the priority of the elected validator is to replace the one
with its address. `Proposer` is the elected validator as it was when it was elected. All numbers are
signed 64-bit integers; where the source adds, subtracts or multiplies them without a check, the
result goes through `wrap64`.
-/

namespace CometBFT.Types

structure PubKey where
  type : String
  bytes : Bytes
deriving DecidableEq, Repr

structure Validator where
  address : Bytes
  pubKey : Option PubKey
  votingPower : ℤ
  proposerPriority : ℤ
deriving DecidableEq, Repr

/-- What `updateWithChangeSet` refuses. -/
inductive ChangeError where
  | duplicateEntry (val : Validator) (changes : List Validator)
  | negativeVotingPower (power : ℤ)
  | votingPowerTooHigh (power : ℤ)
  | deletesNotAllowed (deletes : List Validator)
  | emptySet
  | removeUnknown (address : Bytes)
  | totalVotingPowerOverflow
deriving DecidableEq, Repr

abbrev nilDereference : String := "invalid memory address or nil pointer dereference"

abbrev totalExceeded : String :=
  "Total voting power should be guarded to not exceed MaxTotalVotingPower"

/-- How a call ends, if not with a result: it returns an error, or the process panics. -/
inductive Failure where
  | err (e : ChangeError)
  | panic (msg : String)
deriving DecidableEq, Repr

structure ValidatorSet where
  validators : List Validator := []
  proposer : Option Validator := none
  /-- The cached sum of the voting powers; zero before it is computed. -/
  totalVotingPower : ℤ := 0
  allKeysHaveSameType : Bool := false
deriving DecidableEq, Repr

def maxTotalVotingPower : ℤ := maxInt64 / 8

def priorityWindowSizeFactor : ℤ := 2

/-! ### Arithmetic -/

/-- The sum, and whether it overflows. -/
def safeAdd (a b : ℤ) : ℤ × Bool :=
  if b > 0 ∧ a > maxInt64 - b then (-1, true)
  else if b < 0 ∧ a < minInt64 - b then (-1, true)
  else (a + b, false)

/-- The difference, and whether it overflows. -/
def safeSub (a b : ℤ) : ℤ × Bool :=
  if b > 0 ∧ a < minInt64 + b then (-1, true)
  else if b < 0 ∧ a > maxInt64 + b then (-1, true)
  else (a - b, false)

def safeAddClip (a b : ℤ) : ℤ :=
  match safeAdd a b with
  | (_, true) => if b < 0 then minInt64 else maxInt64
  | (c, false) => c

def safeSubClip (a b : ℤ) : ℤ :=
  match safeSub a b with
  | (_, true) => if b > 0 then minInt64 else maxInt64
  | (c, false) => c

/-! ### Priorities -/

/-- The one with the higher priority; between equals, the one with the lower address. -/
def compareProposerPriority (v : Option Validator) (other : Validator) :
    Except Failure Validator :=
  match v with
  | none => .ok other
  | some v =>
    if v.proposerPriority > other.proposerPriority then .ok v
    else if v.proposerPriority < other.proposerPriority then .ok other
    else if v.address < other.address then .ok v
    else if other.address < v.address then .ok other
    else .error (.panic "Cannot compare identical validators")

namespace Validators

/-- The highest priority, as `computeMaxMinPriorityDiff` looks for it. -/
def maxPriority (vals : List Validator) : ℤ :=
  vals.foldl (fun max v => if v.proposerPriority > max then v.proposerPriority else max) minInt64

/-- The lowest priority, as `computeMaxMinPriorityDiff` looks for it. -/
def minPriority (vals : List Validator) : ℤ :=
  vals.foldl (fun min v => if v.proposerPriority < min then v.proposerPriority else min) maxInt64

def computeMaxMinPriorityDiff (vals : List Validator) : ℤ :=
  let diff := wrap64 (maxPriority vals - minPriority vals)
  if diff < 0 then wrap64 (-1 * diff) else diff

/-- `RescalePriorities`: a priority is divided by the window's excess, rounded up. -/
def rescalePriorities (diffMax : ℤ) (vals : List Validator) : Except Failure (List Validator) :=
  if vals = [] then .error (.panic "empty validator set")
  else if diffMax ≤ 0 then .ok vals
  else
    let diff := computeMaxMinPriorityDiff vals
    let ratio := (wrap64 (wrap64 (diff + diffMax) - 1)).tdiv diffMax
    if diff > diffMax then
      if ratio = 0 then .error (.panic "integer divide by zero")
      else .ok (vals.map fun val =>
        { val with proposerPriority := wrap64 (val.proposerPriority.tdiv ratio) })
    else .ok vals

/-- `computeAvgProposerPriority`: the sum is a `big.Int`, and `Div` rounds down. -/
def computeAvgProposerPriority (vals : List Validator) : Except Failure ℤ :=
  let avg := (vals.map Validator.proposerPriority).sum / vals.length
  if Fits64 avg then .ok avg
  else .error (.panic "Cannot represent avg ProposerPriority as an int64")

def shiftByAvgProposerPriority (vals : List Validator) : Except Failure (List Validator) :=
  if vals = [] then .error (.panic "empty validator set")
  else do
    let avgProposerPriority ← computeAvgProposerPriority vals
    return vals.map fun val =>
      { val with proposerPriority := safeSubClip val.proposerPriority avgProposerPriority }

def getValWithMostPriority (vals : List Validator) : Except Failure (Option Validator) :=
  vals.foldlM (fun res val => some <$> compareProposerPriority res val) none

/-- The unexported `incrementProposerPriority`: one election. -/
def incrementProposerPriority (total : ℤ) (vals : List Validator) :
    Except Failure (List Validator × Validator) := do
  let vals := vals.map fun val =>
    { val with proposerPriority := safeAddClip val.proposerPriority val.votingPower }
  match ← getValWithMostPriority vals with
  | none => .error (.panic nilDereference)
  | some mostest =>
    let mostest :=
      { mostest with proposerPriority := safeSubClip mostest.proposerPriority total }
    return (vals.map fun val => if val.address = mostest.address then mostest else val, mostest)

/-- The loop of `IncrementProposerPriority`. -/
def incrementTimes (total : ℤ) :
    ℕ → List Validator → Option Validator → Except Failure (List Validator × Option Validator)
  | 0, vals, proposer => .ok (vals, proposer)
  | times + 1, vals, _ => do
    let (vals, proposer) ← incrementProposerPriority total vals
    incrementTimes total times vals (some proposer)

/-- `updateTotalVotingPower`, which computes the sum that is cached. -/
def updateTotalVotingPower (vals : List Validator) : Except Failure ℤ :=
  vals.foldlM (fun sum val =>
    let sum := safeAddClip sum val.votingPower
    if sum > maxTotalVotingPower then
      .error (.panic totalExceeded)
    else .ok sum) 0

/-- `GetByAddressMut`. -/
def getByAddress (vals : List Validator) (address : Bytes) : Option Validator :=
  vals.find? fun val => val.address = address

def hasAddress (vals : List Validator) (address : Bytes) : Bool :=
  vals.any fun val => val.address = address

/-- `checkAllKeysHaveSameType`; an empty first key type is one not seen yet. -/
def checkAllKeysHaveSameType (firstKeyType : String) : List Validator → Except Failure Bool
  | [] => .ok true
  | val :: vals =>
    match val.pubKey with
    | none =>
      if firstKeyType = "" then checkAllKeysHaveSameType firstKeyType vals
      else .error (.panic nilDereference)
    | some key =>
      let firstKeyType := if firstKeyType = "" then key.type else firstKeyType
      if key.type ≠ firstKeyType then .ok false else checkAllKeysHaveSameType firstKeyType vals

end Validators

open Validators

/-- `TotalVotingPower`. That the source caches what it computed is not seen: the powers only change
in `updateWithChangeSet`, which computes the sum anew. -/
def ValidatorSet.getTotalVotingPower (vals : ValidatorSet) : Except Failure ℤ :=
  if vals.totalVotingPower = 0 then updateTotalVotingPower vals.validators
  else .ok vals.totalVotingPower

/-- `IncrementProposerPriority`. -/
def ValidatorSet.incrementProposerPriority (vals : ValidatorSet) (times : ℤ) :
    Except Failure ValidatorSet :=
  if vals.validators = [] then .error (.panic "empty validator set")
  else if times ≤ 0 then
    .error (.panic "Cannot call IncrementProposerPriority with non-positive times")
  else do
    let total ← vals.getTotalVotingPower
    let rescaled ← rescalePriorities (wrap64 (priorityWindowSizeFactor * total)) vals.validators
    let shifted ← shiftByAvgProposerPriority rescaled
    let (validators, proposer) ← incrementTimes total times.toNat shifted none
    return { vals with validators := validators, proposer := proposer }

def findProposer (vals : List Validator) : Except Failure (Option Validator) :=
  vals.foldlM (fun proposer val =>
    match proposer with
    | none => some <$> compareProposerPriority none val
    | some p => if val.address = p.address then .ok (some p)
      else some <$> compareProposerPriority (some p) val) none

def ValidatorSet.getProposer (vals : ValidatorSet) : Except Failure (Option Validator) :=
  if vals.validators = [] then .ok none
  else match vals.proposer with
    | none => findProposer vals.validators
    | some p => .ok (some p)

/-! ### Changes -/

/-- `ValidatorsByAddress`. -/
def sortByAddress (vals : List Validator) : List Validator :=
  vals.insertionSort fun a b => a.address ≤ b.address

/-- `ValidatorsByVotingPower`. -/
def sortByVotingPower (vals : List Validator) : List Validator :=
  vals.insertionSort fun a b =>
    a.votingPower > b.votingPower ∨ a.votingPower = b.votingPower ∧ a.address ≤ b.address

/-- The scan of `processChanges` over the sorted changes, from the address seen last: updates and
removals. -/
def splitChanges (changes : List Validator) (prevAddr : Bytes) :
    List Validator → Except Failure (List Validator × List Validator)
  | [] => .ok ([], [])
  | valUpdate :: rest =>
    if valUpdate.address = prevAddr then .error (.err (.duplicateEntry valUpdate changes))
    else if valUpdate.votingPower < 0 then
      .error (.err (.negativeVotingPower valUpdate.votingPower))
    else if valUpdate.votingPower > maxTotalVotingPower then
      .error (.err (.votingPowerTooHigh valUpdate.votingPower))
    else do
      let (updates, removals) ← splitChanges changes valUpdate.address rest
      if valUpdate.votingPower = 0 then return (updates, valUpdate :: removals)
      else return (valUpdate :: updates, removals)

/-- `processChanges`. The address before the first is `nil`. -/
def processChanges (origChanges : List Validator) :
    Except Failure (List Validator × List Validator) :=
  let changes := sortByAddress origChanges
  splitChanges changes [] changes

/-- The `delta` of `verifyUpdates`: by how much an update raises the total power. -/
def delta (vals : List Validator) (update : Validator) : ℤ :=
  match getByAddress vals update.address with
  | some val => wrap64 (update.votingPower - val.votingPower)
  | none => update.votingPower

/-- `verifyUpdates`. The updates are taken in the order of their deltas, and nothing else of them
is used. -/
def verifyUpdates (updates : List Validator) (vals : ValidatorSet) (removedPower : ℤ) :
    Except Failure ℤ := do
  let total ← vals.getTotalVotingPower
  let deltas := (updates.map (delta vals.validators)).insertionSort (· ≤ ·)
  let tvpAfterRemovals ← deltas.foldlM (fun tvp d =>
    let tvp := wrap64 (tvp + d)
    if tvp > maxTotalVotingPower then .error (.err .totalVotingPowerOverflow) else .ok tvp)
    (wrap64 (total - removedPower))
  return wrap64 (tvpAfterRemovals + removedPower)

def numNewValidators (updates vals : List Validator) : ℕ :=
  updates.countP fun valUpdate => !hasAddress vals valUpdate.address

/-- The priority of a validator that joins: `-1.125` times the total power. -/
def newPriority (updatedTotalVotingPower : ℤ) : ℤ :=
  wrap64 (-wrap64 (updatedTotalVotingPower + updatedTotalVotingPower / 8))

def computeNewPriorities (updates vals : List Validator) (updatedTotalVotingPower : ℤ) :
    List Validator :=
  updates.map fun valUpdate =>
    match getByAddress vals valUpdate.address with
    | none => { valUpdate with proposerPriority := newPriority updatedTotalVotingPower }
    | some val => { valUpdate with proposerPriority := val.proposerPriority }

/-- One validator is merged into the updates: those before it, then the one that replaces it or the
validator itself, then `rest`. -/
def mergeOne (existing : Validator) (rest : List Validator → List Validator) :
    List Validator → List Validator
  | [] => existing :: rest []
  | update :: updates =>
    if existing.address < update.address then existing :: rest (update :: updates)
    else if existing.address = update.address then update :: rest updates
    else update :: mergeOne existing rest updates

/-- The merge of `applyUpdates`; both lists are sorted by address. -/
def mergeUpdates : List Validator → List Validator → List Validator
  | [], updates => updates
  | e :: existing, updates => mergeOne e (mergeUpdates existing) updates

def applyUpdates (vals updates : List Validator) : List Validator :=
  mergeUpdates (sortByAddress vals) updates

/-- `verifyRemovals`: the power that is removed. -/
def verifyRemovals (deletes vals : List Validator) : Except Failure ℤ := do
  let removedVotingPower ← deletes.foldlM (fun sum valUpdate =>
    match getByAddress vals valUpdate.address with
    | none => .error (.err (.removeUnknown valUpdate.address))
    | some val => .ok (wrap64 (sum + val.votingPower))) 0
  if deletes.length > vals.length then .error (.panic "more deletes than validators")
  else return removedVotingPower

/-- `applyRemovals`; both lists are sorted by address. -/
def applyRemovals : List Validator → List Validator → Except Failure (List Validator)
  | existing, [] => .ok existing
  | [], _ :: _ => .error (.panic "index out of range")
  | e :: existing, d :: deletes =>
    if e.address = d.address then applyRemovals existing deletes
    else do
      let merged ← applyRemovals existing (d :: deletes)
      return e :: merged

/-- `updateWithChangeSet` up to the new list of validators, sorted by address and with the priorities
of those who join: the total power before the removals, and the list. -/
def ValidatorSet.applyChangeSet (vals : ValidatorSet) (changes : List Validator)
    (allowDeletes : Bool) : Except Failure (ℤ × List Validator) := do
  let (updates, deletes) ← processChanges changes
  if !allowDeletes && deletes ≠ [] then .error (.err (.deletesNotAllowed deletes))
  else if numNewValidators updates vals.validators = 0 ∧
      vals.validators.length = deletes.length then .error (.err .emptySet)
  else
    let removedVotingPower ← verifyRemovals deletes vals.validators
    let tvpAfterUpdatesBeforeRemovals ← verifyUpdates updates vals removedVotingPower
    let updates := computeNewPriorities updates vals.validators tvpAfterUpdatesBeforeRemovals
    let merged ← applyRemovals (applyUpdates vals.validators updates) deletes
    return (tvpAfterUpdatesBeforeRemovals, merged)

def ValidatorSet.updateWithChangeSet (vals : ValidatorSet) (changes : List Validator)
    (allowDeletes : Bool) : Except Failure ValidatorSet :=
  if changes = [] then .ok vals
  else do
    let (_, merged) ← vals.applyChangeSet changes allowDeletes
    let allKeysHaveSameType ← checkAllKeysHaveSameType "" merged
    let total ← updateTotalVotingPower merged
    let rescaled ← rescalePriorities (wrap64 (priorityWindowSizeFactor * total)) merged
    let shifted ← shiftByAvgProposerPriority rescaled
    return { vals with
      validators := sortByVotingPower shifted
      totalVotingPower := total
      allKeysHaveSameType := allKeysHaveSameType }

/-- `NewValidatorSet`. -/
def newValidatorSet (valz : List Validator) : Except Failure ValidatorSet :=
  match ValidatorSet.updateWithChangeSet { allKeysHaveSameType := true } valz false with
  | .error (.err _) => .error (.panic "Cannot create validator set")
  | .error (.panic msg) => .error (.panic msg)
  | .ok vals => if valz ≠ [] then vals.incrementProposerPriority 1 else .ok vals

end CometBFT.Types
