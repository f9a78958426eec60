import CometBFT.Types.Header

/-!
# Consensus parameters

The model of `types/params.go`: the parameters, how the application changes them and what is checked
then. Durations are nanoseconds. The optional BLS keys are left out, as in `isSupported`.

## Main results

* `ConsensusParams.enabled_update` — a change does not matter to the features up to its height
* `ConsensusParams.update_update_self` — to apply a change twice is to apply it once
-/

namespace CometBFT.Types

structure BlockParams where
  maxBytes : ℤ
  maxGas : ℤ
deriving DecidableEq, Repr

structure EvidenceParams where
  maxAgeNumBlocks : ℤ
  maxAgeDuration : ℤ
  maxBytes : ℤ
deriving DecidableEq, Repr

structure ValidatorParams where
  pubKeyTypes : List String
deriving DecidableEq, Repr

structure VersionParams where
  app : UInt64
deriving DecidableEq, Repr

structure FeatureParams where
  voteExtensionsEnableHeight : ℤ
  pbtsEnableHeight : ℤ
deriving DecidableEq, Repr

structure SynchronyParams where
  precision : ℤ
  messageDelay : ℤ
deriving DecidableEq, Repr

structure ConsensusParams where
  block : BlockParams
  evidence : EvidenceParams
  validator : ValidatorParams
  version : VersionParams
  synchrony : SynchronyParams
  feature : FeatureParams
deriving DecidableEq, Repr

/-- `DefaultConsensusParams`. -/
def defaultConsensusParams : ConsensusParams where
  block := ⟨4194304, 10000000⟩
  evidence := ⟨100000, 172800000000000, 1048576⟩
  validator := ⟨[ed25519KeyType]⟩
  version := ⟨0⟩
  synchrony := ⟨505000000, 15000000000⟩
  feature := ⟨0, 0⟩

def maxMessageDelay : ℤ := 86400000000000

def maxPrecision : ℤ := 30000000000

def maxBlockSizeBytes : ℤ := 104857600

/-! ### Features -/

def featureEnabled (enableHeight currentHeight : ℤ) : Except Failure Bool :=
  if currentHeight < 1 then .error (.panic "cannot check if feature is enabled for height < 1")
  else .ok (0 < enableHeight ∧ enableHeight ≤ currentHeight)

def FeatureParams.voteExtensionsEnabled (fp : FeatureParams) (h : ℤ) : Except Failure Bool :=
  featureEnabled fp.voteExtensionsEnableHeight h

def FeatureParams.pbtsEnabled (fp : FeatureParams) (h : ℤ) : Except Failure Bool :=
  featureEnabled fp.pbtsEnableHeight h

/-! ### What is checked -/

inductive ParamsError where
  | zeroMaxBytes
  | negativeMaxBytes (got : ℤ)
  | maxBytesTooBig (got : ℤ)
  | maxGas (got : ℤ)
  | maxAgeNumBlocks (got : ℤ)
  | maxAgeDuration (got : ℤ)
  | evidenceMaxBytesTooBig (got maxBytes : ℤ)
  | negativeEvidenceMaxBytes (got : ℤ)
  | negativeVoteExtensionsEnableHeight (got : ℤ)
  | negativePbtsEnableHeight (got : ℤ)
  | messageDelay (got : ℤ)
  | precision (got : ℤ)
  | messageDelayTooBig
  | precisionTooBig
  | noPubKeyTypes
  | unknownPubKeyType (i : ℕ) (keyType : String)
  /-- A feature is to be enabled at a negative height. -/
  | enableHeightNegative
  /-- A feature cannot be disabled once enabled. -/
  | disabledOnceEnabled (enabled current : ℤ)
  | enabledInThePast (enabled updated current : ℤ)
  | modifiedOnceEnabled (enabled current : ℤ)
deriving DecidableEq, Repr

/-- The checks of the synchrony parameters, made if PBTS is to be enabled. -/
def SynchronyParams.validateBasic (sp : SynchronyParams) : Option ParamsError :=
  if sp.messageDelay ≤ 0 then some (.messageDelay sp.messageDelay)
  else if sp.precision ≤ 0 then some (.precision sp.precision)
  else if sp.messageDelay > maxMessageDelay then some .messageDelayTooBig
  else if sp.precision > maxPrecision then some .precisionTooBig
  else none

/-- `ConsensusParams.ValidateBasic`. -/
def ConsensusParams.validateBasic (params : ConsensusParams) : Option ParamsError :=
  let maxBytes := if params.block.maxBytes = -1 then maxBlockSizeBytes else params.block.maxBytes
  if params.block.maxBytes = 0 then some .zeroMaxBytes
  else if params.block.maxBytes < -1 then some (.negativeMaxBytes params.block.maxBytes)
  else if params.block.maxBytes > maxBlockSizeBytes then some (.maxBytesTooBig params.block.maxBytes)
  else if params.block.maxGas < -1 then some (.maxGas params.block.maxGas)
  else if params.evidence.maxAgeNumBlocks ≤ 0 then
    some (.maxAgeNumBlocks params.evidence.maxAgeNumBlocks)
  else if params.evidence.maxAgeDuration ≤ 0 then
    some (.maxAgeDuration params.evidence.maxAgeDuration)
  else if params.evidence.maxBytes > maxBytes then
    some (.evidenceMaxBytesTooBig params.evidence.maxBytes params.block.maxBytes)
  else if params.evidence.maxBytes < 0 then
    some (.negativeEvidenceMaxBytes params.evidence.maxBytes)
  else if params.feature.voteExtensionsEnableHeight < 0 then
    some (.negativeVoteExtensionsEnableHeight params.feature.voteExtensionsEnableHeight)
  else if params.feature.pbtsEnableHeight < 0 then
    some (.negativePbtsEnableHeight params.feature.pbtsEnableHeight)
  else
    (if 0 < params.feature.pbtsEnableHeight then params.synchrony.validateBasic else none) <|>
    (if params.validator.pubKeyTypes = [] then some .noPubKeyTypes
    else (params.validator.pubKeyTypes.zipIdx.find? fun p => !isSupported p.1).map fun p =>
      .unknownPubKeyType p.2 p.1)

/-! ### Changes -/

structure FeatureUpdate where
  voteExtensionsEnableHeight : Option ℤ := none
  pbtsEnableHeight : Option ℤ := none
deriving DecidableEq, Repr

structure SynchronyUpdate where
  messageDelay : Option ℤ := none
  precision : Option ℤ := none
deriving DecidableEq, Repr

/-- The protobuf message in which the application changes the parameters; what is not set stays. -/
structure ParamsUpdate where
  block : Option BlockParams := none
  evidence : Option EvidenceParams := none
  validator : Option ValidatorParams := none
  version : Option VersionParams := none
  feature : Option FeatureUpdate := none
  synchrony : Option SynchronyUpdate := none
deriving DecidableEq, Repr

def FeatureParams.update (fp : FeatureParams) (fp2 : FeatureUpdate) : FeatureParams where
  voteExtensionsEnableHeight := fp2.voteExtensionsEnableHeight.getD fp.voteExtensionsEnableHeight
  pbtsEnableHeight := fp2.pbtsEnableHeight.getD fp.pbtsEnableHeight

def SynchronyParams.update (sp : SynchronyParams) (sp2 : SynchronyUpdate) : SynchronyParams where
  precision := sp2.precision.getD sp.precision
  messageDelay := sp2.messageDelay.getD sp.messageDelay

/-- `ConsensusParams.Update`. -/
def ConsensusParams.update (params : ConsensusParams) (params2 : ParamsUpdate) :
    ConsensusParams where
  block := params2.block.getD params.block
  evidence := params2.evidence.getD params.evidence
  validator := params2.validator.getD params.validator
  version := params2.version.getD params.version
  feature := (params2.feature.map params.feature.update).getD params.feature
  synchrony := (params2.synchrony.map params.synchrony.update).getD params.synchrony

/-- `validateUpdateFeatureEnableHeight`; the numbers are those of the table in the source. -/
def validateUpdateFeatureEnableHeight (param updated h : ℤ) : Option ParamsError :=
  if updated < 0 then some .enableHeightNegative -- 2
  else if param ≤ 0 ∧ updated = 0 then none -- 3
  else if param = updated then none -- 4
  else if 0 < param ∧ updated = 0 then -- 5, 6
    if param ≤ h then some (.disabledOnceEnabled param h) else none
  else if updated ≤ h then some (.enabledInThePast param updated h) -- 7
  else if param ≤ 0 then none -- 8
  else if param ≤ h then some (.modifiedOnceEnabled param h) -- 9
  else none -- 10

def validateUpdateFeatures (params : FeatureParams) (updated : FeatureUpdate) (h : ℤ) :
    Option ParamsError :=
  (updated.voteExtensionsEnableHeight.bind fun enable =>
    validateUpdateFeatureEnableHeight params.voteExtensionsEnableHeight enable h) <|>
  updated.pbtsEnableHeight.bind fun enable =>
    validateUpdateFeatureEnableHeight params.pbtsEnableHeight enable h

/-- `ConsensusParams.ValidateUpdate`. -/
def ConsensusParams.validateUpdate (params : ConsensusParams) (updated : ParamsUpdate) (h : ℤ) :
    Option ParamsError :=
  updated.feature.bind fun feature => validateUpdateFeatures params.feature feature h

/-- A change of a feature that is allowed at a height does not matter at this height or before. -/
theorem featureEnabled_of_update {param updated h g : ℤ}
    (hvalid : validateUpdateFeatureEnableHeight param updated h = none) (hg : g ≤ h) :
    featureEnabled updated g = featureEnabled param g := by
  unfold featureEnabled
  split_ifs
  · rfl
  · congr 1
    refine decide_eq_decide.mpr ?_
    unfold validateUpdateFeatureEnableHeight at hvalid
    split_ifs at hvalid <;> omega

theorem featureEnabled_mono {enable g h : ℤ} (hg : featureEnabled enable g = .ok true)
    (hgh : g ≤ h) : featureEnabled enable h = .ok true := by
  unfold featureEnabled at hg ⊢
  split_ifs at hg
  have := of_decide_eq_true (Except.ok.inj hg)
  rw [if_neg (by omega), decide_eq_true (by omega)]

/-- The features up to a height are not changed at that height. -/
theorem ConsensusParams.enabled_update {params : ConsensusParams} {upd : ParamsUpdate} {h g : ℤ}
    (hvalid : params.validateUpdate upd h = none) (hg : g ≤ h) :
    (params.update upd).feature.voteExtensionsEnabled g = params.feature.voteExtensionsEnabled g ∧
      (params.update upd).feature.pbtsEnabled g = params.feature.pbtsEnabled g := by
  have hone : ∀ (enable : Option ℤ) (param : ℤ), (enable.bind fun enable =>
      validateUpdateFeatureEnableHeight param enable h) = none →
        featureEnabled (enable.getD param) g = featureEnabled param g := by
    rintro (_ | enable) param henable
    · rfl
    · exact featureEnabled_of_update henable hg
  unfold validateUpdate at hvalid
  unfold update
  cases hfeature : upd.feature with
  | none => exact ⟨rfl, rfl⟩
  | some fu =>
    rw [hfeature, Option.bind_some, validateUpdateFeatures, Option.orElse_eq_none] at hvalid
    exact ⟨hone _ _ hvalid.1, hone _ _ hvalid.2⟩

/-- A change made twice. -/
theorem ConsensusParams.update_update_self (params : ConsensusParams) (params2 : ParamsUpdate) :
    (params.update params2).update params2 = params.update params2 := by
  have hgetD : ∀ {α : Type} (o : Option α) (d : α), o.getD (o.getD d) = o.getD d := by
    intro α o d
    cases o with
    | none => rfl
    | some a => rfl
  have hfeature : ∀ (fp : FeatureParams) (fp2 : FeatureUpdate),
      (fp.update fp2).update fp2 = fp.update fp2 := fun fp fp2 =>
    congrArg₂ FeatureParams.mk (hgetD _ _) (hgetD _ _)
  have hsynchrony : ∀ (sp : SynchronyParams) (sp2 : SynchronyUpdate),
      (sp.update sp2).update sp2 = sp.update sp2 := fun sp sp2 =>
    congrArg₂ SynchronyParams.mk (hgetD _ _) (hgetD _ _)
  unfold ConsensusParams.update
  congr 1
  · exact hgetD _ _
  · exact hgetD _ _
  · exact hgetD _ _
  · exact hgetD _ _
  · cases params2.synchrony with
    | none => rfl
    | some sp2 => exact hsynchrony _ sp2
  · cases params2.feature with
    | none => rfl
    | some fp2 => exact hfeature _ fp2

end CometBFT.Types
