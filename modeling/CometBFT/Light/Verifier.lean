import CometBFT.Types.Header

/-!
# Verifying a header against a trusted one

The model of `light/verifier.go`. A header is accepted if it is well formed, later than the trusted one
and signed: by more than two thirds of its own validators and, if it does not follow the trusted header
directly, by more than the trust level of the trusted validators.

## Main results

* `lt_height_of_verify` — what is accepted is higher than what it was verified against
* `of_newValSetCantBeTrusted` — only a header that is at least two higher is found to have too few
  trusted signatures
-/

namespace CometBFT.Light

open CometBFT.Types

/-- Why a header is invalid. -/
inductive InvalidHeader where
  | validateBasicFailed
  | heightNotGreater (new old : ℤ)
  | timeNotAfter (new old : Time)
  | timeFromFuture (time now : Time) (maxClockDrift : ℤ)
  | validatorsMismatch (expected got : Bytes) (height : ℤ)
  | commit (e : CommitError)
  | anotherChain
  | timeNotBefore (older newer : Time)
  | lastBlockMismatch (hash lastBlock : Bytes)
deriving DecidableEq, Repr

/-- What `Verify` and `VerifyBackwards` return. -/
inductive VerifyError where
  | adjacent
  | nonAdjacent
  | oldHeaderExpired (expired now : Time)
  | invalidHeader (reason : InvalidHeader)
  | newValSetCantBeTrusted (got needed : ℤ)
  | nextValidatorsMismatch (expected got : Bytes)
  | commit (e : CommitError)
deriving DecidableEq, Repr

/-- What a client is configured with. -/
structure Config where
  trustingPeriod : ℤ
  maxClockDrift : ℤ
  trustLevel : Fraction
  maxBlockLag : ℤ := 0
deriving DecidableEq, Repr

section

variable (p : Primitives) (cfg : Config) (now : Time)

def headerExpired (h : SignedHeader) : Bool := ¬now < h.time + cfg.trustingPeriod

def verifyNewHeaderAndVals (untrustedHeader : SignedHeader) (untrustedVals : ValidatorSet)
    (trustedHeader : SignedHeader) : Option InvalidHeader :=
  if untrustedHeader.validateBasic p trustedHeader.chainID = false then some .validateBasicFailed
  else if untrustedHeader.height ≤ trustedHeader.height then
    some (.heightNotGreater untrustedHeader.height trustedHeader.height)
  else if untrustedHeader.time ≤ trustedHeader.time then
    some (.timeNotAfter untrustedHeader.time trustedHeader.time)
  else if now + cfg.maxClockDrift ≤ untrustedHeader.time then
    some (.timeFromFuture untrustedHeader.time now cfg.maxClockDrift)
  else if untrustedHeader.validatorsHash ≠ untrustedVals.hash p then
    some (.validatorsMismatch untrustedHeader.validatorsHash (untrustedVals.hash p)
      untrustedHeader.height)
  else none

/-- The last check of `VerifyNonAdjacent` and `VerifyAdjacent`. -/
def verifyUntrustedCommit (trustedHeader untrustedHeader : SignedHeader)
    (untrustedVals : ValidatorSet) : Except Failure (Option VerifyError) := do
  let err ← verifyCommitLight p.toScheme trustedHeader.chainID untrustedVals
    untrustedHeader.commit.blockID untrustedHeader.height untrustedHeader.commit
  return err.map fun e => .invalidHeader (.commit e)

/-- The switch of `VerifyNonAdjacent` on the error of `VerifyCommitLightTrusting`. -/
def trustingError : CommitError → VerifyError
  | .notEnoughVotingPowerSigned got needed => .newValSetCantBeTrusted got needed
  | e => .commit e

def verifyNonAdjacent (trustedHeader : SignedHeader) (trustedVals : ValidatorSet)
    (untrustedHeader : SignedHeader) (untrustedVals : ValidatorSet) :
    Except Failure (Option VerifyError) :=
  if untrustedHeader.height = wrap64 (trustedHeader.height + 1) then .ok (some .nonAdjacent)
  else if headerExpired cfg now trustedHeader then
    .ok (some (.oldHeaderExpired (trustedHeader.time + cfg.trustingPeriod) now))
  else
    match verifyNewHeaderAndVals p cfg now untrustedHeader untrustedVals trustedHeader with
    | some e => .ok (some (.invalidHeader e))
    | none => do
      match ← verifyCommitLightTrusting p.toScheme trustedHeader.chainID trustedVals
          untrustedHeader.commit cfg.trustLevel with
      | some e => .ok (some (trustingError e))
      | none => verifyUntrustedCommit p trustedHeader untrustedHeader untrustedVals

def verifyAdjacent (trustedHeader untrustedHeader : SignedHeader) (untrustedVals : ValidatorSet) :
    Except Failure (Option VerifyError) :=
  if untrustedHeader.height ≠ wrap64 (trustedHeader.height + 1) then .ok (some .adjacent)
  else if headerExpired cfg now trustedHeader then
    .ok (some (.oldHeaderExpired (trustedHeader.time + cfg.trustingPeriod) now))
  else
    match verifyNewHeaderAndVals p cfg now untrustedHeader untrustedVals trustedHeader with
    | some e => .ok (some (.invalidHeader e))
    | none =>
      if untrustedHeader.validatorsHash ≠ trustedHeader.nextValidatorsHash then
        .ok (some (.nextValidatorsMismatch trustedHeader.nextValidatorsHash
          untrustedHeader.validatorsHash))
      else verifyUntrustedCommit p trustedHeader untrustedHeader untrustedVals

/-- `Verify`, for the headers and validators of two light blocks. -/
def verify (trusted untrusted : LightBlock) : Except Failure (Option VerifyError) :=
  if untrusted.height ≠ wrap64 (trusted.height + 1) then
    verifyNonAdjacent p cfg now trusted.toSignedHeader trusted.validatorSet
      untrusted.toSignedHeader untrusted.validatorSet
  else
    verifyAdjacent p cfg now trusted.toSignedHeader untrusted.toSignedHeader
      untrusted.validatorSet

def verifyBackwards (untrustedHeader trustedHeader : Header) : Option VerifyError :=
  if untrustedHeader.validateBasic = false then some (.invalidHeader .validateBasicFailed)
  else if untrustedHeader.chainID ≠ trustedHeader.chainID then some (.invalidHeader .anotherChain)
  else if trustedHeader.time ≤ untrustedHeader.time then
    some (.invalidHeader (.timeNotBefore untrustedHeader.time trustedHeader.time))
  else if untrustedHeader.hash p ≠ trustedHeader.lastBlockID.hash then
    some (.invalidHeader (.lastBlockMismatch (untrustedHeader.hash p)
      trustedHeader.lastBlockID.hash))
  else none

end

variable {p : Primitives} {cfg : Config} {now : Time} {trusted untrusted : LightBlock}

variable {untrustedHeader trustedHeader : SignedHeader} {untrustedVals : ValidatorSet}

theorem lt_height_of_verifyNewHeaderAndVals
    (h : verifyNewHeaderAndVals p cfg now untrustedHeader untrustedVals trustedHeader = none) :
    trustedHeader.height < untrustedHeader.height := by
  unfold verifyNewHeaderAndVals at h
  split_ifs at h with _ hle
  exact not_le.mp hle

/-- An error that says nothing about the trusted validators. -/
def VerifyError.Other (e : VerifyError) : Prop := ∀ got needed, e ≠ .newValSetCantBeTrusted got needed

theorem verifyUntrustedCommit_spec {r : Option VerifyError}
    (h : verifyUntrustedCommit p trustedHeader untrustedHeader untrustedVals = .ok r) :
    ∀ e, r = some e → e.Other := by
  obtain ⟨err, -, h⟩ := ok_of_bind h
  cases h
  rintro e he got needed rfl
  obtain ⟨_, -, he⟩ := Option.map_eq_some_iff.mp he
  cases he

/-- `VerifyNonAdjacent` refuses a header for another reason, or the header is higher. -/
theorem verifyNonAdjacent_spec {trustedVals : ValidatorSet} {r : Option VerifyError}
    (h : verifyNonAdjacent p cfg now trustedHeader trustedVals untrustedHeader untrustedVals
      = .ok r) :
    (∃ e, r = some e ∧ e.Other) ∨ trustedHeader.height < untrustedHeader.height := by
  unfold verifyNonAdjacent at h
  repeat' split at h
  any_goals
    cases h
    exact .inl ⟨_, rfl, fun _ _ => (nomatch ·)⟩
  exact .inr (lt_height_of_verifyNewHeaderAndVals ‹_›)

/-- `VerifyAdjacent` refuses a header for another reason, or accepts it and it is higher. -/
theorem verifyAdjacent_spec {r : Option VerifyError}
    (h : verifyAdjacent p cfg now trustedHeader untrustedHeader untrustedVals = .ok r) :
    (∃ e, r = some e ∧ e.Other) ∨ r = none ∧ trustedHeader.height < untrustedHeader.height := by
  unfold verifyAdjacent at h
  repeat' split at h
  any_goals
    cases h
    exact .inl ⟨_, rfl, fun _ _ => (nomatch ·)⟩
  cases r with
  | none => exact .inr ⟨rfl, lt_height_of_verifyNewHeaderAndVals ‹_›⟩
  | some e => exact .inl ⟨e, rfl, verifyUntrustedCommit_spec h e rfl⟩

/-- **What is accepted is higher.** -/
theorem lt_height_of_verify (h : verify p cfg now trusted untrusted = .ok none) :
    trusted.height < untrusted.height := by
  unfold verify at h
  split at h
  · rcases verifyNonAdjacent_spec h with ⟨e, he, -⟩ | hlt
    · cases he
    · exact hlt
  · rcases verifyAdjacent_spec h with ⟨e, he, -⟩ | ⟨-, hlt⟩
    · cases he
    · exact hlt

/-- **Too few trusted signatures** are only found for a header that is not the next one. -/
theorem of_newValSetCantBeTrusted {got needed : ℤ}
    (h : verify p cfg now trusted untrusted = .ok (some (.newValSetCantBeTrusted got needed))) :
    trusted.height < untrusted.height ∧ untrusted.height ≠ wrap64 (trusted.height + 1) := by
  unfold verify at h
  split at h
  · rename_i hne
    rcases verifyNonAdjacent_spec h with ⟨e, he, hother⟩ | hlt
    · exact absurd (Option.some.inj he).symm (hother got needed)
    · exact ⟨hlt, hne⟩
  · rcases verifyAdjacent_spec h with ⟨e, he, hother⟩ | ⟨hnone, -⟩
    · exact absurd (Option.some.inj he).symm (hother got needed)
    · cases hnone

theorem of_verifyBackwards_eq_none {untrustedHeader trustedHeader : Header}
    (h : verifyBackwards p untrustedHeader trustedHeader = none) :
    untrustedHeader.hash p = trustedHeader.lastBlockID.hash := by
  unfold verifyBackwards at h
  split_ifs at h with _ _ _ hhash
  exact not_not.mp hhash

/-! ### Blocks with one validator -/

/-- Signatures that are all valid, and a hash of headers that tells times apart. -/
def plainPrimitives : Primitives where
  toScheme := plainScheme
  sum bytes := bytes
  hashHeader h := some (UInt8.ofNat h.time.toNat :: List.replicate 31 0)
  hashValidators _ := List.replicate 32 1

def plainConfig : Config := ⟨1000, 10, ⟨1, 3⟩, 0⟩

def plainHeader (height : ℤ) (time : Time) (lastBlockHash : Bytes) : Header where
  version := ⟨blockProtocol, 0⟩
  chainID := ""
  height := height
  time := time
  lastBlockID := ⟨lastBlockHash, {}⟩
  lastCommitHash := []
  dataHash := []
  validatorsHash := List.replicate 32 1
  nextValidatorsHash := List.replicate 32 1
  consensusHash := []
  appHash := []
  lastResultsHash := []
  evidenceHash := []
  proposerAddress := List.replicate 20 1

/-- A block that the only validator has signed. -/
def plainBlock (height : ℤ) (time : Time) (lastBlockHash : Bytes) : LightBlock where
  toHeader := plainHeader height time lastBlockHash
  commit := ⟨height, 0, ⟨(plainHeader height time lastBlockHash).hash plainPrimitives, {}⟩,
    [⟨.commit, soleKey.bytes, time, [1]⟩]⟩
  validatorSet := soleSet

end CometBFT.Light
