import CometBFT.State.Store
import CometBFT.State.Validation
import CometBFT.Types.ProposerRotation

/-!
# The validator sets of a chain

A chain of states, each computed by `updateState` from the one before and saved. Each set is one
increment ahead of the one before it, after the changes for its height. The store has only some of
them; `LoadValidators` finds the last one before and makes up for the heights since with one call of
`IncrementProposerPriority`. This is the same only if none of the calls in between would have rescaled
the priorities.

## Main results

* `Consistent.next` — what the store has for the heights of a chain, one block further
* `validators_exact` — the sets that are loaded are those the chain used, as long as the priorities
  stay within the window
* `rescaled_validators` — a chain where they do not
-/

namespace CometBFT.Sm

open CometBFT.Types List Checkpoint Function Validators

/-! ### Histories -/

variable {crypto : Crypto} {hashResults : List TxResult → Bytes}

/-- A block that was decided, with what the application answered: the keys of its updates were decoded
before `updateState` sees them. -/
structure Decision (crypto : Crypto) where
  blockID : BlockID
  header : Header
  resp : FinalizeBlockResponse
  updates : List Validator
  keyed : ∀ v ∈ updates, Keyed crypto v

/-- The store, the last state that was saved and the states before, the latest first. -/
structure History where
  store : Store
  last : State
  past : List State := []

namespace History

/-- The state after the block, as it is saved. -/
def nextState (hashResults : List TxResult → Bytes) (state : State) (d : Decision crypto) :
    Except Fault State := do
  let state ← updateState hashResults state d.blockID d.header d.resp d.updates
  return { state with appHash := d.resp.appHash }

/-- A block at the next height. -/
def next (hashResults : List TxResult → Bytes) (hist : History) (d : Decision crypto) :
    Option History :=
  if d.header.height = hist.last.nextHeight then
    match nextState hashResults hist.last d with
    | .error _ => none
    | .ok state =>
      match hist.store.save state with
      | .error _ => none
      | .ok store => some ⟨store, state, hist.last :: hist.past⟩
  else none

/-- The set that the states used for a height. -/
def used (hist : History) (height : ℤ) : Option ValidatorSet :=
  if height = hist.last.nextHeight + 1 then some hist.last.nextValidators
  else ((hist.last :: hist.past).find? fun s => s.nextHeight = height).map State.validators

end History

/-! ### One block -/

variable {state : State}

variable {c : ℤ}

theorem nextValidatorSet_spec (hlive : Live crypto state.nextValidators) {header : Header}
    {updates : List Validator} (hkeyed : ∀ v ∈ updates, Keyed crypto v) {vals : ValidatorSet}
    (h : state.nextValidatorSet header updates = .ok (vals, c)) :
    Live crypto vals ∧ (updates ≠ [] ∧ c = header.height + 1 + 1 ∨
      updates = [] ∧ c = state.lastHeightValidatorsChanged ∧
        state.nextValidators.incrementProposerPriority 1 = .ok vals) := by
  unfold State.nextValidatorSet at h
  split at h
  · rename_i hne
    obtain ⟨changed, hchanged, h⟩ := ok_of_bind h
    obtain ⟨vals', hvals, h⟩ := ok_of_bind h
    obtain ⟨rfl, rfl⟩ := Prod.mk.inj (Except.ok.inj h)
    obtain ⟨hs, hcoded⟩ :=
      coded_of_update hlive.toSound hlive.keyed hne hkeyed (lift_eq_ok.mp hchanged)
    obtain ⟨vals'', hinc, hlive', -⟩ := hcoded.increment hs
    obtain rfl : vals'' = vals' := Except.ok.inj (hinc.symm.trans (lift_eq_ok.mp hvals))
    exact ⟨hlive', .inl ⟨hne, rfl⟩⟩
  · rename_i hnil
    obtain ⟨vals', hvals, h⟩ := ok_of_bind h
    obtain ⟨rfl, rfl⟩ := Prod.mk.inj (Except.ok.inj h)
    have hinc := lift_eq_ok.mp hvals
    obtain ⟨vals'', hinc', hlive', -⟩ := hlive.toCoded.increment hlive.toSound
    obtain rfl : vals'' = vals' := Except.ok.inj (hinc'.symm.trans hinc)
    exact ⟨hlive', .inr ⟨not_not.mp hnil, rfl, hinc⟩⟩

/-- What `updateState` did. -/
structure Updated (hashResults : List TxResult → Bytes) (state : State) (d : Decision crypto)
    (state' : State) : Prop where
  validatorSet : state.nextValidatorSet d.header d.updates =
    .ok (state'.nextValidators, state'.lastHeightValidatorsChanged)
  params : state.nextParams d.header d.resp.consensusParamUpdates =
    .ok (state'.consensusParams, state'.lastHeightConsensusParamsChanged, state'.version)
  rest : state' = { state' with
    chainID := state.chainID
    initialHeight := state.initialHeight
    lastBlockHeight := d.header.height
    lastBlockID := d.blockID
    lastBlockTime := d.header.time
    validators := state.nextValidators
    lastValidators := state.validators
    lastResultsHash := hashResults d.resp.txResults
    appHash := d.resp.appHash }

variable {d : Decision crypto}

theorem updated_of_nextState {state' : State}
    (h : History.nextState hashResults state d = .ok state') :
    Updated hashResults state d state' := by
  obtain ⟨mid, hmid, h⟩ := ok_of_bind h
  obtain ⟨⟨vals, c⟩, hvals, hmid⟩ := ok_of_bind hmid
  obtain ⟨⟨params, pc, version⟩, hparams, hmid⟩ := ok_of_bind hmid
  cases hmid
  cases h
  exact ⟨hvals, hparams, rfl⟩

theorem Updated.nextHeight {state' : State} (h : Updated hashResults state d state')
    (hpos : 0 < d.header.height) :
    state'.nextHeight = d.header.height + 1 := by
  have hlast : state'.lastBlockHeight = d.header.height := by rw [h.rest]
  rw [State.nextHeight, hlast, if_neg hpos.ne']

variable {hist hist' : History}

/-- What a step of a history is. -/
theorem next_eq_some (h : hist.next hashResults d = some hist') :
    d.header.height = hist.last.nextHeight ∧ Updated hashResults hist.last d hist'.last ∧
      hist.store.save hist'.last = .ok hist'.store ∧ hist'.past = hist.last :: hist.past := by
  unfold History.next at h
  repeat' split at h
  all_goals cases h
  exact ⟨‹_›, updated_of_nextState ‹_›, ‹_›, rfl⟩

/-! ### What the store has for a height -/

section Recorded

variable {rel : ValidatorSet → ℤ → ValidatorSet → Prop}

/-- The store has the set for a height, in full or as one that is so many heights older, to which it
is related by `rel`. -/
structure Recorded (rel : ValidatorSet → ℤ → ValidatorSet → Prop) (crypto : Crypto) (store : Store)
    (height c : ℤ) (vals : ValidatorSet) : Prop where
  le : c ≤ height
  live : Live crypto vals
  entry : store.validators height = some (validatorsEntry height c vals)
  base : ¬Full valSetCheckpointInterval height c → ∃ base c', Live crypto base ∧
    store.validators (lastStoredHeightFor height c) = some ⟨c', some (protoOf base)⟩ ∧
    rel base (height - lastStoredHeightFor height c) vals

theorem valSetCheckpointInterval_pos : 0 < valSetCheckpointInterval := by decide

variable {c height : ℤ} {store store' : Store} {vals : ValidatorSet}

theorem lastStoredHeightFor_le (hc : c ≤ height) :
    lastStoredHeightFor height c ≤ height :=
  lastStored_le valSetCheckpointInterval_pos hc

section

variable (h : Recorded rel crypto store height c vals)

include h

/-- Only the entry for the height and the one it points to matter. -/
theorem Recorded.congr (hsame : store'.validators height = store.validators height)
    (hstored : store'.validators (lastStoredHeightFor height c) =
      store.validators (lastStoredHeightFor height c)) :
    Recorded rel crypto store' height c vals where
  le := h.le
  live := h.live
  entry := hsame.trans h.entry
  base hfull := by
    obtain ⟨base, c', hlive, hbase, hrel⟩ := h.base hfull
    exact ⟨base, c', hlive, hstored.trans hbase, hrel⟩

/-- What is saved for later heights does not matter. -/
theorem Recorded.frame (hsame : ∀ k ≤ height, store'.validators k = store.validators k) :
    Recorded rel crypto store' height c vals :=
  h.congr (hsame height le_rfl) (hsame _ (lastStoredHeightFor_le h.le))

/-- Where the set is stored in full, the next height finds it. -/
theorem Recorded.base_of_full (hfull : Full valSetCheckpointInterval height c) :
    lastStoredHeightFor height c = height ∧
      store.validators height = some ⟨c, some (protoOf vals)⟩ := by
  refine ⟨lastStored_of_full valSetCheckpointInterval_pos h.le hfull, ?_⟩
  rw [h.entry, validatorsEntry, if_pos hfull]

/-- **The next height**, for which nothing changes. -/
theorem Recorded.succ {vals' : ValidatorSet}
    (hsame : ∀ k ≤ height, store'.validators k = store.validators k)
    (hentry : store'.validators (height + 1) = some (validatorsEntry (height + 1) c vals'))
    (hlive : Live crypto vals') (hone : rel vals 1 vals') (hsucc : ∀ base n, Live crypto base →
      ¬Full valSetCheckpointInterval (height + 1) c →
      ¬Full valSetCheckpointInterval height c → rel base n vals →
      rel base (n + 1) vals') : Recorded rel crypto store' (height + 1) c vals' where
  le := h.le.trans (by omega)
  live := hlive
  entry := hentry
  base hfull' := by
    have hlast : lastStoredHeightFor (height + 1) c = lastStoredHeightFor height c :=
      lastStored_succ valSetCheckpointInterval_pos h.le hfull'
    rw [hlast, hsame _ (lastStoredHeightFor_le h.le)]
    by_cases hfull : Full valSetCheckpointInterval height c
    · obtain ⟨heq, hbase⟩ := h.base_of_full hfull
      rw [heq, add_sub_cancel_left]
      exact ⟨vals, c, h.live, hbase, hone⟩
    · obtain ⟨base, c', hbase, hstored, hrel⟩ := h.base hfull
      refine ⟨base, c', hbase, hstored, ?_⟩
      rw [add_sub_right_comm]
      exact hsucc base _ hbase hfull' hfull hrel

end

/-- A height from which the set is new. -/
theorem recorded_of_changed (hlive : Live crypto vals)
    (hentry : store.validators height = some (validatorsEntry height height vals)) :
    Recorded rel crypto store height height vals :=
  ⟨le_rfl, hlive, hentry, fun hfull => absurd (.inl rfl) hfull⟩

end Recorded

/-- The store has the parameters for a height, or points to an older height for which it has them. -/
structure ParamsRecorded (store : Store) (height c : ℤ) (params : ConsensusParams) : Prop where
  le : c ≤ height
  entry : store.params height = some ⟨c, if c = height then some params else none⟩
  base : c ≠ height → ∃ c', store.params c = some ⟨c', some params⟩

namespace ParamsRecorded

variable {store store' : Store} {height c : ℤ} {params : ConsensusParams}

theorem congr (h : ParamsRecorded store height c params)
    (hsame : store'.params height = store.params height)
    (hbase : store'.params c = store.params c) : ParamsRecorded store' height c params :=
  ⟨h.le, hsame.trans h.entry, fun hne => hbase ▸ h.base hne⟩

/-- What is saved for later heights does not matter. -/
theorem frame (h : ParamsRecorded store height c params)
    (hsame : ∀ k ≤ height, store'.params k = store.params k) :
    ParamsRecorded store' height c params :=
  h.congr (hsame height le_rfl) (hsame c h.le)

theorem entry_self (h : ParamsRecorded store height height params) :
    store.params height = some ⟨height, some params⟩ :=
  h.entry.trans (by rw [if_pos rfl])

theorem loadConsensusParams (h : ParamsRecorded store height c params) :
    store.loadConsensusParams height = .ok params := by
  unfold Store.loadConsensusParams
  rw [h.entry]
  by_cases hc : c = height
  · rw [if_pos hc]
  · obtain ⟨c', hbase⟩ := h.base hc
    rw [if_neg hc]
    dsimp only
    rw [hbase]

/-- The next height, for which nothing changes. -/
theorem succ (h : ParamsRecorded store height c params)
    (hsame : ∀ k ≤ height, store'.params k = store.params k)
    (hentry : store'.params (height + 1) = some ⟨c, none⟩) :
    ParamsRecorded store' (height + 1) c params := by
  have hle := h.le
  refine ⟨by omega, ?_, fun _ => ?_⟩
  · rw [hentry, if_neg (by omega)]
  · rw [hsame c hle]
    by_cases hc : c = height
    · subst hc
      exact ⟨_, h.entry_self⟩
    · exact h.base hc

/-- A height from which the parameters are new. -/
theorem of_changed (hentry : store.params height = some ⟨height, some params⟩) :
    ParamsRecorded store height height params :=
  ⟨le_rfl, by rw [hentry, if_pos rfl], fun hne => absurd rfl hne⟩

end ParamsRecorded

/-! ### What the store has for a chain -/

/-- The first state of a chain, before its first block. -/
structure Founded (crypto : Crypto) (state : State) : Prop where
  initialHeight : 1 ≤ state.initialHeight
  lastBlockHeight : state.lastBlockHeight = 0
  validators : Live crypto state.validators
  nextValidators : Live crypto state.nextValidators
  increment : state.validators.incrementProposerPriority 1 = .ok state.nextValidators
  lastValidators : newValidatorSet [] = .ok state.lastValidators
  validatorsChanged : state.lastHeightValidatorsChanged = state.initialHeight
  paramsChanged : state.lastHeightConsensusParamsChanged = state.initialHeight

variable {base : ℤ}

section Consistent

variable {rel : ValidatorSet → ℤ → ValidatorSet → Prop}

/-- The store has the sets of the chain for all heights from `base` on, up to the one after the
next. -/
structure Consistent (rel : ValidatorSet → ℤ → ValidatorSet → Prop) (crypto : Crypto) (base : ℤ)
    (hist : History) : Prop where
  base_pos : 1 ≤ base
  base_le : base ≤ hist.last.nextHeight
  validators : Live crypto hist.last.validators
  recorded : ∀ height, base ≤ height → height ≤ hist.last.nextHeight → ∃ vals c,
    hist.used height = some vals ∧ Recorded rel crypto hist.store height c vals
  nextRecorded : Recorded rel crypto hist.store (hist.last.nextHeight + 1)
    hist.last.lastHeightValidatorsChanged hist.last.nextValidators

theorem Founded.nextHeight (h : Founded crypto state) :
    state.nextHeight = state.initialHeight :=
  if_pos h.lastBlockHeight

theorem Founded.storable (h : Founded crypto state) :
    StorableState crypto state where
  validators := h.validators.toStorable
  nextValidators := h.nextValidators.toStorable
  lastValidators hle := absurd h.lastBlockHeight (by omega)
  first _ := h.lastValidators

theorem History.used_next (hist : History) :
    hist.used (hist.last.nextHeight + 1) = some hist.last.nextValidators :=
  if_pos rfl

theorem History.used_last (hist : History) :
    hist.used hist.last.nextHeight = some hist.last.validators := by
  rw [History.used, if_neg (by omega), find?_cons_of_pos (by simp)]
  rfl

/-- A new state changes nothing of what was used before. -/
theorem History.used_of_le (hpast : hist'.past = hist.last :: hist.past)
    (hnext : hist'.last.nextHeight = hist.last.nextHeight + 1) {height : ℤ}
    (hle : height ≤ hist.last.nextHeight) : hist'.used height = hist.used height := by
  unfold History.used
  rw [if_neg (by omega), if_neg (by omega), hpast,
    find?_cons_of_neg (by rw [hnext]; simpa using (by omega))]

theorem Founded.validatorsChanged_le (h : Founded crypto state) :
    state.lastHeightValidatorsChanged ≤ state.nextHeight + 1 := by
  rw [h.validatorsChanged, h.nextHeight]
  omega

variable {store store' : Store}

section

variable (h : Founded crypto state) (hsave : store.save state = .ok store')

include h hsave

theorem Founded.first_entry : store'.validators state.initialHeight =
      some (validatorsEntry state.initialHeight state.initialHeight state.validators) := by
  have hnext := h.nextHeight
  rw [Store.save_eq h.storable h.validatorsChanged_le] at hsave
  cases hsave
  show update (store.withFirst state) _ _ _ = _
  rw [update_of_ne (by omega), Store.withFirst, if_pos h.lastBlockHeight,
    update_self]

/-- **The first state**, saved. -/
theorem Founded.consistent (hone : rel state.validators 1 state.nextValidators) :
    Consistent rel crypto state.initialHeight ⟨store', state, []⟩ := by
  have hnext := h.nextHeight
  have hfirst := h.first_entry hsave
  rw [Store.save_eq h.storable h.validatorsChanged_le] at hsave
  have hsecond : store'.validators (state.initialHeight + 1) =
      some (validatorsEntry (state.initialHeight + 1) state.initialHeight state.nextValidators) := by
    cases hsave
    show update (store.withFirst state) _ _ _ = _
    rw [hnext, update_self, h.validatorsChanged]
  have hrec : Recorded rel crypto store' state.initialHeight state.initialHeight state.validators :=
    recorded_of_changed h.validators hfirst
  refine ⟨h.initialHeight, hnext.ge, h.validators, fun height hlo hhi => ?_, ?_⟩
  · obtain rfl : height = state.initialHeight := le_antisymm (hhi.trans hnext.le) hlo
    exact ⟨_, _, hnext ▸ History.used_last ⟨store', state, []⟩, hrec⟩
  · show Recorded rel crypto store' (state.nextHeight + 1) state.lastHeightValidatorsChanged
      state.nextValidators
    rw [hnext, h.validatorsChanged]
    exact hrec.succ (fun _ _ => rfl) hsecond h.nextValidators hone
      fun _ _ _ _ hfull _ => absurd (.inl rfl) hfull

theorem Founded.paramsRecorded :
    ParamsRecorded store' state.nextHeight state.lastHeightConsensusParamsChanged
      state.consensusParams := by
  have hnext := h.nextHeight
  rw [Store.save_eq h.storable h.validatorsChanged_le] at hsave
  cases hsave
  rw [h.paramsChanged, hnext]
  refine .of_changed ?_
  show update store.params _ _ _ = _
  rw [update_self, if_pos rfl]

end

/-- What a block adds to the store. -/
structure Saved (crypto : Crypto) (hist : History) (d : Decision crypto) (hist' : History) :
    Prop where
  nextHeight : hist'.last.nextHeight = hist.last.nextHeight + 1
  past : hist'.past = hist.last :: hist.past
  validators : hist'.last.validators = hist.last.nextValidators
  live : Live crypto hist'.last.nextValidators
  changed : d.updates ≠ [] ∧
      hist'.last.lastHeightValidatorsChanged = hist'.last.nextHeight + 1 ∨
    d.updates = [] ∧
      hist'.last.lastHeightValidatorsChanged = hist.last.lastHeightValidatorsChanged ∧
      hist.last.nextValidators.incrementProposerPriority 1 = .ok hist'.last.nextValidators
  paramsChanged :
    hist'.last.lastHeightConsensusParamsChanged = hist'.last.nextHeight ∨
      hist'.last.lastHeightConsensusParamsChanged = hist.last.lastHeightConsensusParamsChanged ∧
        hist'.last.consensusParams = hist.last.consensusParams
  store : hist'.store = {
    state := some (stateProtoOf hist'.last)
    validators := update hist.store.validators (hist'.last.nextHeight + 1)
      (some (validatorsEntry (hist'.last.nextHeight + 1) hist'.last.lastHeightValidatorsChanged
        hist'.last.nextValidators))
    params := update hist.store.params hist'.last.nextHeight
      (some ⟨hist'.last.lastHeightConsensusParamsChanged,
        if hist'.last.lastHeightConsensusParamsChanged = hist'.last.nextHeight then
          some hist'.last.consensusParams else none⟩)
    responses := hist.store.responses }

theorem paramsChanged_of_nextParams {header : Header} {updates : Option ParamsUpdate}
    {params : ConsensusParams} {c : ℤ} {version : StateVersion}
    (h : state.nextParams header updates = .ok (params, c, version)) :
    c = header.height + 1 ∨
      c = state.lastHeightConsensusParamsChanged ∧ params = state.consensusParams := by
  obtain ⟨hparams, hc, -⟩ | ⟨_, -, -, hc, -⟩ := State.nextParams_cases h
  · exact .inr ⟨hc, hparams⟩
  · exact .inl hc

/-- The state after a block can be saved. -/
theorem Consistent.storable (h : Consistent rel crypto base hist)
    (hheight : d.header.height = hist.last.nextHeight)
    (hupd : Updated hashResults hist.last d state) :
    state.nextHeight = hist.last.nextHeight + 1 ∧ StorableState crypto state ∧
      state.lastHeightValidatorsChanged ≤ state.nextHeight + 1 := by
  obtain ⟨hlive, hcases⟩ := nextValidatorSet_spec h.nextRecorded.live d.keyed hupd.validatorSet
  have hpos := h.base_pos.trans h.base_le
  have hnext : state.nextHeight = hist.last.nextHeight + 1 := hheight ▸ hupd.nextHeight (by omega)
  have hvals : state.validators = hist.last.nextValidators := by rw [hupd.rest]
  have hlastvals : state.lastValidators = hist.last.validators := by rw [hupd.rest]
  have hlast : state.lastBlockHeight = hist.last.nextHeight := by rw [hupd.rest, ← hheight]
  refine ⟨hnext, ⟨hvals ▸ h.nextRecorded.live.toStorable, hlive.toStorable,
    fun _ => hlastvals ▸ h.validators.toStorable, fun hlt => absurd hlt (by omega)⟩, ?_⟩
  have := h.nextRecorded.le
  rcases hcases with ⟨-, hc⟩ | ⟨-, hc, -⟩ <;> omega

theorem Consistent.saved (h : Consistent rel crypto base hist)
    (hn : hist.next hashResults d = some hist') :
    Saved crypto hist d hist' := by
  obtain ⟨hheight, hupd, hsave, hpast⟩ := next_eq_some hn
  obtain ⟨hnext, hstorable, hc⟩ := h.storable hheight hupd
  obtain ⟨hlive, hcases⟩ := nextValidatorSet_spec h.nextRecorded.live d.keyed hupd.validatorSet
  have hparams := paramsChanged_of_nextParams hupd.params
  rw [hheight, ← hnext] at hcases hparams
  have hvals : hist'.last.validators = hist.last.nextValidators := by rw [hupd.rest]
  have hlast : hist'.last.lastBlockHeight = hist.last.nextHeight := by rw [hupd.rest, ← hheight]
  have hpos := h.base_pos.trans h.base_le
  rw [Store.save_eq hstorable hc, Store.withFirst, if_neg (by omega)] at hsave
  exact ⟨hnext, hpast, hvals, hlive, hcases, hparams, (Except.ok.inj hsave).symm⟩

theorem Saved.params_of_le (h : Saved crypto hist d hist') {k : ℤ} (hk : k ≤ hist.last.nextHeight) :
    hist'.store.params k = hist.store.params k := by
  have hnext := h.nextHeight
  rw [h.store]
  exact update_of_ne (by omega) _ _

/-- The parameters for the next height. -/
theorem Saved.paramsRecorded (h : Saved crypto hist d hist')
    (hrec : ParamsRecorded hist.store hist.last.nextHeight
      hist.last.lastHeightConsensusParamsChanged hist.last.consensusParams) :
    ParamsRecorded hist'.store hist'.last.nextHeight hist'.last.lastHeightConsensusParamsChanged
      hist'.last.consensusParams := by
  have hnext := h.nextHeight
  have hentry : hist'.store.params hist'.last.nextHeight =
      some ⟨hist'.last.lastHeightConsensusParamsChanged,
        if hist'.last.lastHeightConsensusParamsChanged = hist'.last.nextHeight then
          some hist'.last.consensusParams else none⟩ := by
    rw [h.store]
    exact update_self _ _ _
  rcases h.paramsChanged with hc | ⟨hc, hparams⟩
  · rw [if_pos hc] at hentry
    rw [hc] at hentry ⊢
    exact .of_changed hentry
  · have := hrec.le
    rw [if_neg (by omega), hc, hnext] at hentry
    rw [hc, hparams, hnext]
    exact hrec.succ (fun k hk => h.params_of_le hk) hentry

/-- A block that changes nothing is always possible. -/
theorem Consistent.exists_next (h : Consistent rel crypto base hist)
    (hashResults : List TxResult → Bytes) (hheight : d.header.height = hist.last.nextHeight)
    (hupdates : d.updates = []) (hparams : d.resp.consensusParamUpdates = none) :
    ∃ hist', hist.next hashResults d = some hist' := by
  obtain ⟨vals, hinc, -, -⟩ :=
    h.nextRecorded.live.toCoded.increment h.nextRecorded.live.toSound
  have hvals : hist.last.nextValidatorSet d.header d.updates =
      .ok (vals, hist.last.lastHeightValidatorsChanged) := by
    unfold State.nextValidatorSet
    rw [if_neg (not_not.mpr hupdates), bind_of_ok (lift_eq_ok.mpr hinc)]
    rfl
  obtain ⟨state, hstate⟩ : ∃ state, History.nextState hashResults hist.last d = .ok state := by
    unfold History.nextState updateState
    rw [hparams, bind_of_ok hvals]
    exact ⟨_, rfl⟩
  obtain ⟨-, hstorable, hc⟩ := h.storable hheight (updated_of_nextState hstate)
  unfold History.next
  rw [if_pos hheight, hstate]
  dsimp only
  rw [Store.save_eq hstorable hc]
  exact ⟨_, rfl⟩

/-- **One block further.** -/
theorem Consistent.next (h : Consistent rel crypto base hist)
    (hn : hist.next hashResults d = some hist')
    (hone : hist.last.nextValidators.incrementProposerPriority 1 = .ok hist'.last.nextValidators →
      rel hist.last.nextValidators 1 hist'.last.nextValidators)
    (hsucc : ∀ vals n, Live crypto vals → d.updates = [] →
      ¬Full valSetCheckpointInterval (hist.last.nextHeight + 1 + 1)
        hist.last.lastHeightValidatorsChanged →
      ¬Full valSetCheckpointInterval (hist.last.nextHeight + 1)
        hist.last.lastHeightValidatorsChanged →
      hist.last.nextValidators.incrementProposerPriority 1 = .ok hist'.last.nextValidators →
      rel vals n hist.last.nextValidators → rel vals (n + 1) hist'.last.nextValidators) :
    Consistent rel crypto base hist' := by
  obtain ⟨hnext, hpast, hvals, hlive, hcases, -, hstore⟩ := h.saved hn
  have hsame : ∀ k ≤ hist.last.nextHeight + 1,
      hist'.store.validators k = hist.store.validators k := by
    intro k hk
    rw [hstore]
    exact update_of_ne (by omega) _ _
  have hentry : hist'.store.validators (hist'.last.nextHeight + 1) = some (validatorsEntry
      (hist'.last.nextHeight + 1) hist'.last.lastHeightValidatorsChanged
      hist'.last.nextValidators) := by
    rw [hstore]
    exact update_self _ _ _
  refine ⟨h.base_pos, ?_, hvals ▸ h.nextRecorded.live, fun height hlo hhi => ?_, ?_⟩
  · have := h.base_le
    omega
  · -- the height that was the next one, or one before
    rcases eq_or_lt_of_le hhi with rfl | hlt
    · refine ⟨_, hist.last.lastHeightValidatorsChanged, hist'.used_last, ?_⟩
      rw [hvals, hnext]
      exact h.nextRecorded.frame hsame
    · obtain ⟨vals, c, hused, hrec⟩ := h.recorded height hlo (by omega)
      refine ⟨vals, c, ?_, hrec.frame fun k hk => hsame k (by omega)⟩
      rw [History.used_of_le hpast hnext (by omega), hused]
  · rcases hcases with ⟨-, hc'⟩ | ⟨hnil, hc', hinc⟩
    · rw [hc'] at hentry ⊢
      exact recorded_of_changed hlive hentry
    · rw [hc', hnext] at hentry ⊢
      exact h.nextRecorded.succ hsame hentry hlive (hone hinc) fun vals n hlive hfull' hfull hrel =>
        hsucc vals n hlive hnil hfull' hfull hinc hrel

end Consistent

/-! ### Genesis -/

theorem keyed_newValidator {key : PubKey} (h : decodesKey key = true) (power : ℤ) :
    Keyed crypto (newValidator crypto key power) :=
  ⟨key, rfl, h, rfl⟩

variable {now : Time} {genDoc : GenesisDoc}

/-- What `ValidateAndComplete` leaves of the document. -/
theorem validateAndComplete_eq_ok {genDoc' : GenesisDoc} {params : ConsensusParams}
    (h : genDoc.validateAndComplete crypto now = .ok (genDoc', params)) :
    genDoc' = genDoc.complete crypto now params ∧ 1 ≤ genDoc'.initialHeight := by
  unfold GenesisDoc.validateAndComplete at h
  dsimp only at h
  split_ifs at h with _ _ hneg
  split at h
  · cases h
  split at h
  · cases h
  · cases h
    refine ⟨rfl, ?_⟩
    unfold GenesisDoc.complete
    dsimp only
    split_ifs <;> omega

/-- Completing the document changes no key. -/
theorem keys_complete (crypto : Crypto) (now : Time) (genDoc : GenesisDoc) (params : ConsensusParams) :
    (genDoc.complete crypto now params).vals.map GenesisValidator.pubKey =
      genDoc.vals.map GenesisValidator.pubKey := by
  unfold GenesisDoc.vals GenesisDoc.complete
  cases genDoc.validators with
  | none => rfl
  | some vals =>
    show (vals.map _).map GenesisValidator.pubKey = vals.map GenesisValidator.pubKey
    rw [map_map]
    refine map_congr_left fun v _ => ?_
    show (if v.address = [] then { v with address := crypto.address v.pubKey } else v).pubKey = _
    split_ifs <;> rfl

/-- What is known of a genesis state, whoever its validators are. -/
structure AtGenesis (state : State) : Prop where
  initialHeight : 1 ≤ state.initialHeight
  lastBlockHeight : state.lastBlockHeight = 0
  lastValidators : newValidatorSet [] = .ok state.lastValidators
  validatorsChanged : state.lastHeightValidatorsChanged = state.initialHeight
  paramsChanged : state.lastHeightConsensusParamsChanged = state.initialHeight
  lastBlockID : state.lastBlockID = {}
  version : state.version = ⟨⟨blockProtocol, state.version.consensus.app⟩, cmtSemVer⟩

theorem atGenesis_of_makeGenesisState (h : makeGenesisState crypto now genDoc = .ok state) :
    AtGenesis state := by
  unfold makeGenesisState at h
  split at h
  · cases h
  rename_i genDoc' params hcomplete
  obtain ⟨⟨vals, vals'⟩, -, h⟩ := ok_of_bind h
  obtain ⟨empty, hempty, h⟩ := ok_of_bind h
  cases h
  exact ⟨(validateAndComplete_eq_ok hcomplete).2, rfl, lift_eq_ok.mp hempty, rfl, rfl, rfl, rfl⟩

/-- The sets for the first two heights, from the validators given for the first. -/
theorem AtGenesis.founded (h : AtGenesis state) {valz : List Validator} (hne : valz ≠ [])
    (hvalz : ∀ v ∈ valz, Keyed crypto v)
    (hsets : initialValidatorSets valz = .ok (state.validators, state.nextValidators)) :
    Founded crypto state := by
  obtain ⟨hlive, hlive', hinc⟩ := live_of_initialValidatorSets hne hvalz hsets
  exact ⟨h.initialHeight, h.lastBlockHeight, hlive, hlive', hinc, h.lastValidators,
    h.validatorsChanged, h.paramsChanged⟩

/-- **The genesis state** of a document with validators. -/
theorem founded_of_makeGenesisState (h : makeGenesisState crypto now genDoc = .ok state)
    (hne : genDoc.vals ≠ []) (hkeys : ∀ v ∈ genDoc.vals, decodesKey v.pubKey = true) :
    Founded crypto state := by
  have hgenesis := atGenesis_of_makeGenesisState h
  unfold makeGenesisState at h
  split at h
  · cases h
  rename_i genDoc' params hcomplete
  obtain ⟨hdoc, -⟩ := validateAndComplete_eq_ok hcomplete
  obtain ⟨⟨vals, vals'⟩, hsets, h⟩ := ok_of_bind h
  obtain ⟨empty, -, h⟩ := ok_of_bind h
  have hpubs := keys_complete crypto now genDoc params
  rw [← hdoc] at hpubs
  have hne' : genDoc'.vals ≠ [] := by
    intro hnil
    rw [hnil] at hpubs
    exact hne (map_eq_nil_iff.mp hpubs.symm)
  have hvalz : ∀ v ∈ genDoc'.toValidators crypto, Keyed crypto v := by
    intro v hv
    obtain ⟨val, hval, rfl⟩ := mem_map.mp hv
    have hmem : val.pubKey ∈ genDoc.vals.map GenesisValidator.pubKey :=
      hpubs ▸ mem_map_of_mem hval
    obtain ⟨val', hval', hkey⟩ := mem_map.mp hmem
    exact keyed_newValidator (hkey ▸ hkeys val' hval') val.power
  have hinit : initialValidatorSets (genDoc'.toValidators crypto) = .ok (vals, vals') := by
    unfold genesisValidatorSets at hsets
    split at hsets
    · rename_i hnone
      exact absurd (by rw [GenesisDoc.vals, hnone]; rfl) hne'
    · exact hsets
  cases h
  exact hgenesis.founded (fun hnil => hne' (map_eq_nil_iff.mp hnil)) hvalz hinit

/-! ### Loading -/

/-- The base of a set is at most an interval older. -/
theorem safeConvertInt32_age {height : ℤ} (hc : c ≤ height) :
    Store.safeConvertInt32 (height - lastStoredHeightFor height c) =
      .ok (height - lastStoredHeightFor height c) := by
  have hle := lastStoredHeightFor_le hc
  have hge : height - height % valSetCheckpointInterval ≤ lastStoredHeightFor height c :=
    le_max_left _ _
  have hlt := Int.emod_lt_of_pos height valSetCheckpointInterval_pos
  have hval : valSetCheckpointInterval = 100000 := rfl
  exact if_neg (by omega)

section Load

variable {rel : ValidatorSet → ℤ → ValidatorSet → Prop} {store : Store} {height c : ℤ}
  {vals : ValidatorSet}

section

variable (h : Recorded rel crypto store height c vals)

include h

theorem Recorded.loadValidators_of_full (hfull : Full valSetCheckpointInterval height c) :
    store.loadValidators crypto height = .ok vals := by
  unfold Store.loadValidators
  rw [(h.base_of_full hfull).2]
  exact h.live.fromProto

/-- A set that is not stored is the last one that is, incremented as often as there are heights since. -/
theorem Recorded.loadValidators_of_base (hfull : ¬Full valSetCheckpointInterval height c)
    {base vals' : ValidatorSet} {c' : ℤ} (hbase : Live crypto base)
    (hstored : store.validators (lastStoredHeightFor height c) = some ⟨c', some (protoOf base)⟩)
    (hinc : base.incrementProposerPriority (height - lastStoredHeightFor height c) = .ok vals') :
    store.loadValidators crypto height = .ok vals' := by
  have hst := hbase.toCoded.rotated (rotated_of_incrementProposerPriority hbase.nodup hinc)
  unfold Store.loadValidators
  rw [h.entry, validatorsEntry, if_neg hfull]
  dsimp only
  rw [hstored]
  show Store.rebuildValidators crypto (protoOf base) _ = _
  unfold Store.rebuildValidators
  rw [bind_of_ok hbase.fromProto, bind_of_ok (safeConvertInt32_age h.le),
    bind_of_ok (lift_eq_ok.mpr hinc), bind_of_ok hst.toProto]
  exact hst.fromProto

/-- Whatever the set is that is stored, so many increments of it succeed. -/
theorem Recorded.exists_loadValidators : ∃ vals', store.loadValidators crypto height = .ok vals' ∧
      (vals' = vals ∨ ∃ base n, Live crypto base ∧ rel base n vals ∧
        base.incrementProposerPriority n = .ok vals') := by
  by_cases hfull : Full valSetCheckpointInterval height c
  · exact ⟨vals, h.loadValidators_of_full hfull, .inl rfl⟩
  · obtain ⟨base, c', hbase, hstored, hrel⟩ := h.base hfull
    have hlt : lastStoredHeightFor height c < height := by
      refine lt_of_le_of_ne (lastStoredHeightFor_le h.le) fun heq => hfull ?_
      exact heq ▸ full_lastStored valSetCheckpointInterval height c
    obtain ⟨vals', hinc, -⟩ := hbase.toSound.increment_ok hbase.nonempty (sub_pos.mpr hlt)
    exact ⟨vals', h.loadValidators_of_base hfull hbase hstored hinc,
      .inr ⟨base, _, hbase, hrel, hinc⟩⟩

theorem Recorded.loadValidators_ok : ∃ vals', store.loadValidators crypto height = .ok vals' := by
  obtain ⟨vals', hload, -⟩ := h.exists_loadValidators
  exact ⟨vals', hload⟩

end

end Load

/-- The number of increments since the base. -/
def Incremental (base : ValidatorSet) (n : ℤ) (vals : ValidatorSet) : Prop :=
  base.incrementProposerPriority n = .ok vals

theorem Recorded.loadValidators {store : Store} {height : ℤ} {vals : ValidatorSet}
    (h : Recorded Incremental crypto store height c vals) :
    store.loadValidators crypto height = .ok vals := by
  by_cases hfull : Full valSetCheckpointInterval height c
  · exact h.loadValidators_of_full hfull
  · obtain ⟨base, c', hbase, hstored, hinc⟩ := h.base hfull
    exact h.loadValidators_of_base hfull hbase hstored hinc

/-! ### Historical validators -/

/-- If the block changes no validators, and neither the set it is for nor the one before is stored in
full, the priorities of the one before are within the window. -/
def Decision.Calm (d : Decision crypto) (hist : History) : Prop :=
  d.updates = [] →
    ¬Full valSetCheckpointInterval (hist.last.nextHeight + 1 + 1)
      hist.last.lastHeightValidatorsChanged →
    ¬Full valSetCheckpointInterval (hist.last.nextHeight + 1)
      hist.last.lastHeightValidatorsChanged →
    spread hist.last.nextValidators.validators ≤ 2 * powerSum hist.last.nextValidators.validators

instance (d : Decision crypto) (hist : History) : Decidable (d.Calm hist) :=
  inferInstanceAs (Decidable (_ → _))

theorem Consistent.next_of_calm (h : Consistent Incremental crypto base hist) (hcalm : d.Calm hist)
    (hn : hist.next hashResults d = some hist') : Consistent Incremental crypto base hist' := by
  refine h.next hn id fun vals n hvals hnil hfull' hfull hinc hrel => ?_
  have hlive := h.nextRecorded.live
  have hr := rotated_of_incrementProposerPriority hvals.nodup hrel
  have htotal : vals.getTotalVotingPower = .ok (powerSum hist.last.nextValidators.validators) :=
    powerSum_of_shape hr.shape ▸ getTotalVotingPower_eq hvals.total hvals.pos
  exact (hlive.toSound.increment_add hlive.nonempty htotal Int.one_pos hrel
    (hcalm hnil hfull' hfull)).symm.trans hinc

/-- **Historical validators are exact** as long as no block leaves the priorities outside the window
between two heights at which the set is stored. -/
theorem validators_exact {now : Time} {genDoc : GenesisDoc} {s₀ : State}
    (hgen : makeGenesisState crypto now genDoc = .ok s₀) (hne : genDoc.vals ≠ [])
    (hkeys : ∀ v ∈ genDoc.vals, decodesKey v.pubKey = true) {store₀ store : Store}
    (hsave : store₀.save s₀ = .ok store) {hist : History}
    (hrun : Steps (History.next hashResults) (fun hist (d : Decision crypto) => d.Calm hist)
      ⟨store, s₀, []⟩ hist) {height : ℤ} (hlo : s₀.initialHeight ≤ height)
    (hhi : height ≤ hist.last.nextHeight + 1) :
    ∃ vals, hist.used height = some vals ∧
      hist.store.loadValidators crypto height = .ok vals := by
  have hfounded := founded_of_makeGenesisState hgen hne hkeys
  have hcons : Consistent Incremental crypto s₀.initialHeight hist :=
    hrun.invariant (hfounded.consistent hsave hfounded.increment)
      fun _ _ _ hi hcalm hn => hi.next_of_calm hcalm hn
  rcases eq_or_lt_of_le hhi with rfl | hlt
  · exact ⟨_, hist.used_next, hcons.nextRecorded.loadValidators⟩
  · obtain ⟨vals, c, hused, hrec⟩ := hcons.recorded height hlo (by omega)
    exact ⟨vals, hused, hrec.loadValidators⟩

/-! ### A chain that leaves the window -/

/-- A document with validators of the given powers. -/
def genesisOf (vals : List (UInt8 × ℤ)) : GenesisDoc where
  genesisTime := 1
  chainID := "chain"
  initialHeight := 1
  consensusParams := none
  validators := some (vals.map fun v => ⟨[], keyOf v.1, v.2⟩)
  appHash := []
  appState := []

theorem decodesKey_keyOf (n : UInt8) : decodesKey (keyOf n) = true :=
  decodesKey_iff.mpr (.inr ⟨rfl, length_replicate⟩)

/-- A block with the given updates of powers. -/
def blockAt (height : ℤ) (updates : List (UInt8 × ℤ)) : Decision keyedHashes.toCrypto where
  blockID := someID
  header := { (secondBlock height []).toHeader with height := height }
  resp := ⟨[], [], none, []⟩
  updates := updates.map fun u => newValidator _ (keyOf u.1) u.2
  keyed v hv := by
    obtain ⟨u, -, rfl⟩ := mem_map.mp hv
    exact keyed_newValidator (decodesKey_keyOf u.1) u.2

/-- The history that starts with a document. -/
def historyOf (genDoc : GenesisDoc) : Except Fault History := do
  let state ← makeGenesisState keyedHashes.toCrypto 0 genDoc
  let store ← Store.save {} state
  return ⟨store, state, []⟩

theorem historyOf_eq_ok (h : historyOf genDoc = .ok hist) :
    makeGenesisState keyedHashes.toCrypto 0 genDoc = .ok hist.last ∧
      Store.save {} hist.last = .ok hist.store ∧ hist.past = [] := by
  obtain ⟨state, hstate, h⟩ := ok_of_bind h
  obtain ⟨store, hstore, h⟩ := ok_of_bind h
  cases h
  exact ⟨hstate, hstore, rfl⟩

/-- The priorities, in the order of the validators. -/
def prioritiesOf (vals : ValidatorSet) : List ℤ := vals.validators.map Validator.proposerPriority

/-- Two validators are within the window, and a third one that joins. -/
theorem validators_exact_joined : ∃ start hist,
    historyOf (genesisOf [(1, 3), (2, 1)]) = .ok start ∧
    execWhere (History.next fun _ => []) (fun hist d => d.Calm hist) start
      [blockAt 1 [], blockAt 2 [(3, 2)], blockAt 3 []] = some hist ∧
    hist.last.nextHeight + 1 = 5 ∧
    ∃ vals, hist.used 5 = some vals ∧
      hist.store.loadValidators keyedHashes.toCrypto 5 = .ok vals := by
  obtain ⟨start, hist, hstart, hhist, hinitial, hnext⟩ : ∃ start hist,
      historyOf (genesisOf [(1, 3), (2, 1)]) = .ok start ∧
      execWhere (History.next fun _ => []) (fun hist d => d.Calm hist) start
        [blockAt 1 [], blockAt 2 [(3, 2)], blockAt 3 []] = some hist ∧
      start.last.initialHeight = 1 ∧ hist.last.nextHeight + 1 = 5 :=
    exists_of_any (by decide +kernel)
  obtain ⟨hgen, hsave, hpast⟩ := historyOf_eq_ok hstart
  obtain ⟨store, s₀, past⟩ := start
  subst hpast
  exact ⟨_, hist, hstart, hhist, hnext, validators_exact hgen (by decide) (by decide) hsave
    (steps_of_execWhere hhist) (hinitial.le.trans (by decide)) hnext.ge⟩

/-- **A chain that leaves the window.** The first block replaces a validator. The set with the new one
is used, and stored, from height 3 on; at height 4 the priorities are more than twice the total power
apart, and the call for height 5 rescales them. `LoadValidators` makes up for both heights in one call,
which does not. -/
theorem rescaled_validators : ∃ start hist,
    historyOf (genesisOf [(1, 10), (2, 2), (3, 6)]) = .ok start ∧
    exec (History.next fun _ => []) start
      [blockAt 1 [(3, 0), (5, 1)], blockAt 2 [], blockAt 3 []] = some hist ∧
    hist.last.nextHeight + 1 = 5 ∧
    (hist.used 5).map prioritiesOf = some [-2, 9, -5] ∧
    (hist.store.loadValidators keyedHashes.toCrypto 5).map prioritiesOf = .ok [11, 2, -13] :=
  exists_of_any (by decide +kernel)

end CometBFT.Sm
