import CometBFT.State.History

/-!
# Pruning of states

`PruneStates` deletes what the store has for the heights below a target. Heights above it point to
older ones, where a validator set or the parameters are stored in full; those are kept. For the
validators retention starts earlier, at the height from which evidence can still be verified. What is
kept for them is found from that height's entry, but the last checkpoint from the target: if there is
a checkpoint between the two, the one that is needed is deleted.

## Main results

* `Store.pruneLoop_eq` — what the loop deletes, in whatever batches
* `pruning_keeps` — in every run of saves and prunings everything that must be kept can be loaded, if
  each pruning keeps the checkpoint
* `checkpoint_pruned` — a chain where it is deleted
-/

namespace CometBFT.Sm

open CometBFT.Types List Checkpoint Function

variable {crypto : Crypto} {hashResults : List TxResult → Bytes}

/-! ### The loop -/

def Write.height : Write → ℤ
  | .setValidators height _ => height
  | .setParams height _ => height
  | .deleteResponse height => height

namespace Store

/-- What is written for a height where nothing has to be filled in. -/
def deletions (keep : Keep) (evidenceThresholdHeight h : ℤ) : List Write :=
  (if keep.vals h then [] else if h < evidenceThresholdHeight then [.setValidators h none] else []) ++
    (if keep.params h then [] else [.setParams h none]) ++ [.deleteResponse h]

/-- What is written for `n` heights. -/
def deletionsFrom (keep : Keep) (evidenceThresholdHeight start : ℤ) : ℕ → List Write
  | 0 => []
  | n + 1 => deletions keep evidenceThresholdHeight (start + n) ++
      deletionsFrom keep evidenceThresholdHeight start n

/-- What is kept for the height is stored in full. -/
structure Filled (store : Store) (keep : Keep) (h : ℤ) : Prop where
  vals : keep.vals h = true → ∃ c vp, store.validators h = some ⟨c, some vp⟩
  params : keep.params h = true → ∃ c p, store.params h = some ⟨c, some p⟩

variable {store : Store} {keep : Keep} {e : ℤ}

theorem pruneHeight_eq {h : ℤ} (hfilled : store.Filled keep h) :
    store.pruneHeight crypto keep e h = .ok (deletions keep e h) := by
  have hvals : store.pruneValidators crypto (keep.vals h) e h =
      .ok (if keep.vals h then [] else if h < e then [.setValidators h none] else []) := by
    unfold pruneValidators
    cases hkeep : keep.vals h with
    | true =>
      obtain ⟨c, vp, hentry⟩ := hfilled.vals hkeep
      rw [hentry]
      rfl
    | false =>
      simp only [Bool.false_eq_true, if_false]
      split <;> rfl
  have hparams : store.pruneParams (keep.params h) h =
      .ok (if keep.params h then [] else [.setParams h none]) := by
    unfold pruneParams
    cases hkeep : keep.params h with
    | true =>
      obtain ⟨c, p, hentry⟩ := hfilled.params hkeep
      rw [hentry]
      rfl
    | false => rfl
  unfold pruneHeight
  rw [bind_of_ok hvals, bind_of_ok hparams]
  rfl

theorem height_of_mem_deletions {h : ℤ} {w : Write} (hw : w ∈ deletions keep e h) :
    w.height = h := by
  unfold deletions at hw
  split_ifs at hw <;> simp at hw <;> rcases hw with rfl | rfl | rfl <;> rfl

/-- Writes for higher heights change nothing. -/
theorem foldl_apply_of_lt {ws : List Write} {m k : ℤ} (hws : ∀ w ∈ ws, m ≤ w.height) (hk : k < m) :
    (ws.foldl apply store).validators k = store.validators k ∧
      (ws.foldl apply store).params k = store.params k := by
  induction ws generalizing store with
  | nil => exact ⟨rfl, rfl⟩
  | cons w ws ih =>
    have hw := hws w mem_cons_self
    have hws' : ∀ w' ∈ ws, m ≤ w'.height := fun w' hw' => hws w' (mem_cons_of_mem w hw')
    rw [foldl_cons, (ih hws').1, (ih hws').2]
    cases w with
    | setValidators height info =>
      exact ⟨update_of_ne (hk.trans_le hw).ne _ _, rfl⟩
    | setParams height info =>
      exact ⟨rfl, update_of_ne (hk.trans_le hw).ne _ _⟩
    | deleteResponse height => exact ⟨rfl, rfl⟩

/-- **What the loop deletes.** It goes down, so that what is kept for a height is still there when the
height is reached; when the batches are written does not matter. -/
theorem pruneLoop_eq {start : ℤ} {n : ℕ} {batch : List Write} {pruned : ℕ}
    (hfilled : ∀ h, start ≤ h → h < start + n → store.Filled keep h)
    (hbatch : ∀ w ∈ batch, start + n ≤ w.height) :
    pruneLoop crypto keep e start n store batch pruned =
      ((batch ++ deletionsFrom keep e start n).foldl apply store, pruned + n, none) := by
  induction n generalizing store batch pruned with
  | zero => rw [deletionsFrom, append_nil]; rfl
  | succ n ih =>
    have hcast : start + (n + 1 : ℕ) = start + n + 1 := by push_cast; ring
    rw [hcast] at hfilled hbatch
    have hwrites : ∀ w ∈ batch ++ deletions keep e (start + n), start + n ≤ w.height := by
      intro w hw
      rcases mem_append.mp hw with hw | hw
      · exact (hbatch w hw).trans' (by omega)
      · exact (height_of_mem_deletions hw).ge
    unfold pruneLoop
    rw [pruneHeight_eq (hfilled (start + n) (by omega) (by omega))]
    dsimp only
    split
    · -- the batch is written, which leaves the heights that remain as they were
      have hfilled' : ∀ h, start ≤ h → h < start + n →
          ((batch ++ deletions keep e (start + n)).foldl apply store).Filled keep h := by
        intro h hlo hhi
        obtain ⟨hvals, hparams⟩ := hfilled h hlo (by omega)
        obtain ⟨hsame, hsame'⟩ := @foldl_apply_of_lt store _ _ _ hwrites hhi
        exact ⟨fun hkeep => hsame ▸ hvals hkeep, fun hkeep => hsame' ▸ hparams hkeep⟩
      rw [ih hfilled' (fun w hw => absurd hw not_mem_nil), deletionsFrom, nil_append,
        ← foldl_append, append_assoc, Nat.add_right_comm, Nat.add_assoc]
    · rw [ih (fun h hlo hhi => hfilled h hlo (by omega)) hwrites, deletionsFrom, append_assoc,
        Nat.add_right_comm, Nat.add_assoc]

theorem foldl_deletions (h k : ℤ) :
    ((deletions keep e k).foldl apply store).validators h =
        (if h = k ∧ h < e ∧ keep.vals h = false then none else store.validators h) ∧
      ((deletions keep e k).foldl apply store).params h =
        (if h = k ∧ keep.params h = false then none else store.params h) := by
  unfold deletions
  by_cases hk : h = k
  · subst hk
    by_cases hlt : h < e <;> cases hvals : keep.vals h <;> cases hparams : keep.params h <;>
      simp [hlt, apply]
  · by_cases hlt : k < e <;> cases hvals : keep.vals k <;> cases hparams : keep.params k <;>
      simp [hlt, hk, apply]

/-- What is left of the store: nothing below the threshold or the target but what is kept. -/
theorem foldl_deletionsFrom (start : ℤ) (n : ℕ) (h : ℤ) :
    ((deletionsFrom keep e start n).foldl apply store).validators h =
        (if start ≤ h ∧ h < start + n ∧ h < e ∧ keep.vals h = false then none
        else store.validators h) ∧
      ((deletionsFrom keep e start n).foldl apply store).params h =
        (if start ≤ h ∧ h < start + n ∧ keep.params h = false then none else store.params h) := by
  induction n generalizing store with
  | zero => exact ⟨(if_neg (by push_cast; omega)).symm, (if_neg (by push_cast; omega)).symm⟩
  | succ n ih =>
    rw [deletionsFrom, foldl_append, ih.1, ih.2, (foldl_deletions h _).1,
      (foldl_deletions h _).2]
    push_cast
    constructor <;> grind

end Store

/-! ### Loading -/

variable {store' : Store} {height : ℤ}

namespace Store

/-- Only the entry for the height and the one it points to matter. -/
theorem loadValidators_congr {store : Store}
    (hsame : store'.validators height = store.validators height)
    (hstored : ∀ info, store.validators height = some info →
      store'.validators (lastStoredHeightFor height info.lastHeightChanged) =
        store.validators (lastStoredHeightFor height info.lastHeightChanged)) :
    store'.loadValidators crypto height = store.loadValidators crypto height := by
  unfold loadValidators
  rw [hsame]
  cases hinfo : store.validators height with
  | none => rfl
  | some info =>
    obtain ⟨c, vp⟩ := info
    cases vp with
    | some vp => rfl
    | none =>
      have hc := hstored _ hinfo
      dsimp only at hc ⊢
      rw [hc]

end Store

/-! ### Last changes -/

/-- The last change of the validators, as the entry for the height has it. -/
def Store.validatorsChanged (store : Store) (height : ℤ) : Option ℤ :=
  (store.validators height).map ValidatorsInfo.lastHeightChanged

/-- The last change of the parameters, as the entry for the height has it. -/
def Store.paramsChanged (store : Store) (height : ℤ) : Option ℤ :=
  (store.params height).map ConsensusParamsInfo.lastHeightChanged

variable {c : ℤ}

theorem Recorded.changed {rel : ValidatorSet → ℤ → ValidatorSet → Prop} {store : Store}
    {vals : ValidatorSet} (h : Recorded rel crypto store height c vals) :
    store.validatorsChanged height = some c := by
  rw [Store.validatorsChanged, h.entry]
  rfl

theorem ParamsRecorded.changed {store : Store} {params : ConsensusParams}
    (h : ParamsRecorded store height c params) : store.paramsChanged height = some c := by
  rw [Store.paramsChanged, h.entry]
  rfl

/-! ### Runs of saves and prunings -/

/-- A store from which the states for the heights below `base` were pruned, with `evidence` as the
last height from which the validators were kept. -/
structure Retention where
  hist : History
  base : ℤ
  evidence : ℤ

inductive Action (crypto : Crypto) where
  | save (d : Decision crypto)
  | prune (stop evidenceThresholdHeight : ℤ)

namespace Retention

/-- What `pruneBlocksToHeight` calls `PruneStates` with: the range starts where the last one ended and
ends at a height of the block store, and the threshold is in between. -/
def Callable (r : Retention) (stop evidenceThresholdHeight : ℤ) : Prop :=
  r.base < stop ∧ stop ≤ r.hist.last.nextHeight ∧ r.base ≤ evidenceThresholdHeight ∧
    evidenceThresholdHeight ≤ stop

instance (r : Retention) (stop e : ℤ) : Decidable (r.Callable stop e) :=
  inferInstanceAs (Decidable (_ ∧ _))

def pruneStates (crypto : Crypto) (r : Retention) (stop evidenceThresholdHeight : ℤ) :
    Store × ℕ × Option Fault :=
  r.hist.store.pruneStates crypto r.base stop evidenceThresholdHeight

def next (hashResults : List TxResult → Bytes) (r : Retention) : Action crypto → Option Retention
  | .save d => (r.hist.next hashResults d).map fun hist => { r with hist := hist }
  | .prune stop e =>
    if r.Callable stop e then
      some ⟨{ r.hist with store := (r.pruneStates crypto stop e).1 }, stop, e⟩
    else none

/-! ### What is kept -/

/-- Nothing is asked of how a set came from the one that is stored. -/
def Unrelated (_ : ValidatorSet) (_ : ℤ) (_ : ValidatorSet) : Prop := True

/-- Everything that was not pruned can be found. -/
structure Good (crypto : Crypto) (r : Retention) : Prop where
  evidence_le : r.evidence ≤ r.base
  base_le : r.base ≤ r.hist.last.nextHeight
  validators : Consistent Unrelated crypto r.evidence r.hist
  ordered : Ordered r.hist.store.validatorsChanged r.evidence
    (r.hist.last.nextHeight + 1)
  params : ∀ height, r.base ≤ height → height ≤ r.hist.last.nextHeight →
    ∃ c params, ParamsRecorded r.hist.store height c params
  lastParams : ParamsRecorded r.hist.store r.hist.last.nextHeight
    r.hist.last.lastHeightConsensusParamsChanged r.hist.last.consensusParams
  orderedParams : Ordered r.hist.store.paramsChanged r.base r.hist.last.nextHeight

variable {r r' : Retention}

theorem Good.recorded (h : Good crypto r) (hlo : r.evidence ≤ height)
    (hhi : height ≤ r.hist.last.nextHeight + 1) :
    ∃ vals c, Recorded Unrelated crypto r.hist.store height c vals := by
  rcases eq_or_lt_of_le hhi with rfl | hlt
  · exact ⟨_, _, h.validators.nextRecorded⟩
  · obtain ⟨vals, c, -, hrec⟩ := h.validators.recorded height hlo (by omega)
    exact ⟨vals, c, hrec⟩

/-- **The first state**, saved. -/
theorem good_of_founded {state : State} (h : Founded crypto state) {store : Store}
    (hsave : store.save state = .ok store') :
    Good crypto ⟨⟨store', state, []⟩, state.initialHeight, state.initialHeight⟩ := by
  have hnext := h.nextHeight
  have hcons : Consistent Unrelated crypto state.initialHeight ⟨store', state, []⟩ :=
    h.consistent hsave trivial
  have hfirst : store'.validatorsChanged state.initialHeight = some state.initialHeight := by
    rw [Store.validatorsChanged, h.first_entry hsave]
    rfl
  have hrec := h.paramsRecorded hsave
  refine ⟨le_rfl, hnext.ge, hcons, ?_, fun height hlo hhi => ?_, ?_, ?_⟩
  · -- only the first height, and the one after it
    show Ordered store'.validatorsChanged state.initialHeight (state.nextHeight + 1)
    have hsecond : store'.validatorsChanged (state.nextHeight + 1) =
      some state.lastHeightValidatorsChanged := hcons.nextRecorded.changed
    rw [hnext, h.validatorsChanged] at hsecond
    rw [hnext]
    exact (ordered_self _ _).succ (fun _ _ => rfl) (.inl (hsecond.trans hfirst.symm))
  · obtain rfl : height = state.nextHeight := le_antisymm hhi (hnext.le.trans hlo)
    exact ⟨_, _, hrec⟩
  · exact hrec
  · show Ordered store'.paramsChanged state.initialHeight state.nextHeight
    rw [hnext]
    exact ordered_self _ _

/-- **A block** is saved. -/
theorem Good.save (h : Good crypto r) {d : Decision crypto} {hist : History}
    (hn : r.hist.next hashResults d = some hist) : Good crypto { r with hist := hist } := by
  have hsaved := h.validators.saved hn
  have hnext := hsaved.nextHeight
  have hvals : ∀ k ≤ r.hist.last.nextHeight + 1,
      hist.store.validators k = r.hist.store.validators k := by
    intro k hk
    rw [hsaved.store]
    exact update_of_ne (by omega) _ _
  have hcons : Consistent Unrelated crypto r.evidence hist :=
    h.validators.next hn (fun _ => trivial) fun _ _ _ _ _ _ _ _ => trivial
  have hlast := hsaved.paramsRecorded h.lastParams
  refine ⟨h.evidence_le, ?_, hcons, ?_, fun height hlo hhi => ?_, hlast, ?_⟩
  · have := h.base_le
    show r.base ≤ hist.last.nextHeight
    omega
  · show Ordered hist.store.validatorsChanged r.evidence (hist.last.nextHeight + 1)
    have hnew := hcons.nextRecorded.changed
    rw [hnext] at hnew ⊢
    refine h.ordered.succ (fun k hk => congrArg _ (hvals k hk)) ?_
    rw [hnew, h.validators.nextRecorded.changed]
    rcases hsaved.changed with ⟨-, hc⟩ | ⟨-, hc, -⟩
    · exact .inr (by rw [hc, hnext])
    · exact .inl (by rw [hc])
  · rcases eq_or_lt_of_le hhi with rfl | hlt
    · exact ⟨_, _, hlast⟩
    · have hlt' : height < r.hist.last.nextHeight + 1 := hnext ▸ hlt
      obtain ⟨c, params, hrec⟩ := h.params height hlo (by omega)
      exact ⟨c, params, hrec.frame fun k hk => hsaved.params_of_le (by omega)⟩
  · show Ordered hist.store.paramsChanged r.base hist.last.nextHeight
    have hnew := hlast.changed
    rw [hnext] at hnew ⊢
    refine h.orderedParams.succ (fun k hk => congrArg _ (hsaved.params_of_le hk)) ?_
    rw [hnew, h.lastParams.changed]
    rcases hsaved.paramsChanged with hc | ⟨hc, -⟩
    · exact .inr (by rw [hc, hnext])
    · exact .inl (by rw [hc])

/-- Whatever the validators at the threshold are rebuilt from is before the range, is stored at the
threshold itself, or is among the heights that are kept. -/
def Aligned (store : Store) (start stop evidenceThresholdHeight : ℤ) : Prop :=
  ∀ c, store.validatorsChanged evidenceThresholdHeight = some c →
    lastStoredHeightFor evidenceThresholdHeight c < start ∨
      lastStoredHeightFor evidenceThresholdHeight c = evidenceThresholdHeight ∨
      lastStoredHeightFor evidenceThresholdHeight c = c ∨
      lastStoredHeightFor evidenceThresholdHeight c = lastStoredHeightFor stop c

instance (store : Store) (start stop e : ℤ) : Decidable (Aligned store start stop e) :=
  match h : store.validatorsChanged e with
  | none => isTrue fun _ hc => nomatch h.symm.trans hc
  | some c => decidable_of_iff
      (lastStoredHeightFor e c < start ∨ lastStoredHeightFor e c = e ∨ lastStoredHeightFor e c = c ∨
        lastStoredHeightFor e c = lastStoredHeightFor stop c)
      ⟨fun hp _ hc => Option.some.inj (h.symm.trans hc) ▸ hp, fun hall => hall c h⟩

/-- The second store has what is needed to load the validators from `e` on and the parameters from
`stop` on, up to the heights that follow `last`. -/
structure Keeps (store store' : Store) (stop e last : ℤ) : Prop where
  validators : ∀ height, e ≤ height → height ≤ last + 1 →
    store'.validators height = store.validators height ∧
      ∀ c, store.validatorsChanged height = some c →
        store'.validators (lastStoredHeightFor height c) =
          store.validators (lastStoredHeightFor height c)
  params : ∀ height, stop ≤ height → height ≤ last →
    store'.params height = store.params height ∧
      ∀ c, store.paramsChanged height = some c → store'.params c = store.params c

variable {stop e : ℤ}

section

variable {vals : ValidatorSet} {pc : ℤ} {p : ConsensusParams} (h : Good crypto r)
  (hcall : r.Callable stop e) (hrec : Recorded Unrelated crypto r.hist.store e c vals)
  (hparams : ParamsRecorded r.hist.store stop pc p)

include h hcall hrec hparams

/-- What is kept was stored in full, so that nothing has to be filled in. -/
theorem Good.filled {params : Option ConsensusParams} (hlo : r.base ≤ height) (hhi : height < stop) :
    r.hist.store.Filled (Store.keepFor stop (validatorsEntry e c vals) ⟨pc, params⟩) height := by
  obtain ⟨-, hstop, hbe, hes⟩ := hcall
  have hev := h.evidence_le
  constructor
  · intro hkeep
    obtain ⟨-, hor⟩ := of_decide_eq_true hkeep
    obtain ⟨vals', c', hrec'⟩ := h.recorded (hev.trans hlo) (by omega : height ≤ _)
    -- the height of the last change, or a checkpoint
    have hfull : Full valSetCheckpointInterval height c' := by
      have hself : height = c → height = c' := by
        rintro rfl
        exact (h.ordered.eq_self (hev.trans hlo) hrec.le (by omega) hrec.changed hrec'.changed).symm
      rcases hor with hc | hc
      · exact .inl (hself hc)
      · have hstored := full_lastStored valSetCheckpointInterval stop c
        change height = lastStored valSetCheckpointInterval stop c at hc
        rw [← hc] at hstored
        exact hstored.imp hself id
    exact ⟨_, _, (hrec'.base_of_full hfull).2⟩
  · intro hkeep
    obtain ⟨-, hc⟩ := of_decide_eq_true hkeep
    obtain ⟨pc', p', hrec'⟩ := h.params height hlo (by omega)
    change height = pc at hc
    subst hc
    obtain rfl : pc' = height :=
      h.orderedParams.eq_self hlo hparams.le hstop hparams.changed hrec'.changed
    exact ⟨_, p', hrec'.entry_self⟩

/-- What a pruning leaves. -/
theorem Good.pruneStates_eq {params : Option ConsensusParams}
    (hentry : r.hist.store.params stop = some ⟨pc, params⟩) : r.pruneStates crypto stop e =
      ((Store.deletionsFrom (Store.keepFor stop (validatorsEntry e c vals) ⟨pc, params⟩) e r.base
        (stop - r.base).toNat).foldl Store.apply r.hist.store, (stop - r.base).toNat, none) := by
  have hcall' := hcall
  obtain ⟨hlt, hstop, hbe, hes⟩ := hcall
  have hev := h.evidence_le
  have hpos := h.validators.base_pos
  have hn : r.base + ((stop - r.base).toNat : ℤ) = stop := by omega
  unfold pruneStates Store.pruneStates
  rw [if_neg (by omega), min_eq_right hes, hrec.entry, hentry]
  dsimp only
  rw [Store.pruneLoop_eq (fun k hlo hhi => h.filled hcall' hrec hparams hlo (hn ▸ hhi))
    (fun w hw => absurd hw not_mem_nil), nil_append, Nat.zero_add]

end

/-- **One pruning** succeeds and keeps what is needed. -/
theorem Good.prune_keeps (h : Good crypto r) (hcall : r.Callable stop e)
    (haligned : Aligned r.hist.store r.base stop e) :
    ∃ store' n, r.pruneStates crypto stop e = (store', n, none) ∧
      Keeps r.hist.store store' stop e r.hist.last.nextHeight := by
  have hcall' := hcall
  obtain ⟨hlt, hstop, hbe, hes⟩ := hcall
  have hev := h.evidence_le
  obtain ⟨vals, c, hrec⟩ := h.recorded (hev.trans hbe) (by omega : e ≤ _)
  obtain ⟨pc, p, hparams⟩ := h.params stop (by omega) hstop
  have hn : r.base + ((stop - r.base).toNat : ℤ) = stop := by omega
  have hprune := h.pruneStates_eq hcall' hrec hparams hparams.entry
  refine ⟨_, _, hprune, fun height hlo hhi => ⟨?_, fun c' hc' => ?_⟩, fun height hlo hhi =>
    ⟨?_, fun c' hc' => ?_⟩⟩
  · rw [(Store.foldl_deletionsFrom _ _ _).1, if_neg (by omega)]
  · rw [(Store.foldl_deletionsFrom _ _ _).1, hn]
    refine if_neg fun ⟨hge, _, hbelow, hkeep⟩ => ?_
    -- what the height is rebuilt from is below the threshold, so it is what the threshold is
    rcases h.ordered.le_or_eq valSetCheckpointInterval_pos (hev.trans hbe) hlo hhi hrec.changed
      hc' with hle | heq
    · exact absurd hbelow (not_lt.mpr hle)
    · change lastStoredHeightFor height c' = lastStoredHeightFor e c at heq
      rw [heq] at hge hbelow hkeep
      have hnone : (validatorsEntry e c vals).validatorSet = none := by
        refine if_neg fun hfull => hbelow.ne ?_
        exact (hrec.base_of_full hfull).1
      refine absurd (of_decide_eq_false hkeep) (not_not.mpr ⟨hnone, ?_⟩)
      rcases haligned c hrec.changed with hcase | hcase | hcase | hcase
      · exact absurd hge (not_le.mpr hcase)
      · exact absurd hcase hbelow.ne
      · exact .inl hcase
      · exact .inr hcase
  · rw [(Store.foldl_deletionsFrom _ _ _).2, if_neg (by omega)]
  · rw [(Store.foldl_deletionsFrom _ _ _).2, hn]
    refine if_neg fun ⟨hge, hbelow, hkeep⟩ => ?_
    rcases h.orderedParams stop height pc c' (by omega) hlo hhi hparams.changed hc' with rfl | hgt
    · refine absurd (of_decide_eq_false hkeep) (not_not.mpr ⟨if_neg hbelow.ne, rfl⟩)
    · exact absurd hbelow (not_lt.mpr hgt.le)

theorem Good.prune (h : Good crypto r) (hcall : r.Callable stop e)
    (hkeeps : Keeps r.hist.store store' stop e r.hist.last.nextHeight) :
    Good crypto ⟨{ r.hist with store := store' }, stop, e⟩ := by
  obtain ⟨hlt, hstop, hbe, hes⟩ := hcall
  have hev := h.evidence_le
  have hrecorded : ∀ {height c : ℤ} {vals : ValidatorSet}, e ≤ height →
      height ≤ r.hist.last.nextHeight + 1 → Recorded Unrelated crypto r.hist.store height c vals →
      Recorded Unrelated crypto store' height c vals := by
    intro height c vals hlo hhi hrec
    obtain ⟨hsame, hstored⟩ := hkeeps.validators height hlo hhi
    exact hrec.congr hsame (hstored c hrec.changed)
  have hparams : ∀ {height c : ℤ} {params : ConsensusParams}, stop ≤ height →
      height ≤ r.hist.last.nextHeight → ParamsRecorded r.hist.store height c params →
      ParamsRecorded store' height c params := by
    intro height c params hlo hhi hrec
    obtain ⟨hsame, hstored⟩ := hkeeps.params height hlo hhi
    exact hrec.congr hsame (hstored c hrec.changed)
  have hpos := h.validators.base_pos
  refine ⟨hes, hstop, ⟨by show 1 ≤ e; omega, hes.trans hstop, h.validators.validators, ?_, ?_⟩,
    ?_, ?_, ?_, ?_⟩
  · intro height hlo hhi
    obtain ⟨vals, c, hused, hrec⟩ :=
      h.validators.recorded height (hev.trans (hbe.trans hlo)) hhi
    exact ⟨vals, c, hused, hrecorded hlo (Int.le_add_one hhi) hrec⟩
  · exact hrecorded (by show e ≤ r.hist.last.nextHeight + 1; omega) le_rfl h.validators.nextRecorded
  · exact h.ordered.mono (hev.trans hbe) fun k hlo hhi =>
      congrArg _ (hkeeps.validators k hlo hhi).1
  · intro height hlo hhi
    obtain ⟨c, params, hrec⟩ := h.params height (hlt.le.trans hlo) hhi
    exact ⟨c, params, hparams hlo hhi hrec⟩
  · exact hparams hstop le_rfl h.lastParams
  · exact h.orderedParams.mono hlt.le fun k hlo hhi => congrArg _ (hkeeps.params k hlo hhi).1

/-- A pruning keeps the checkpoint that is needed. -/
def Careful (r : Retention) : Action crypto → Prop
  | .save _ => True
  | .prune stop e => Aligned r.hist.store r.base stop e

instance (r : Retention) (a : Action crypto) : Decidable (r.Careful a) :=
  match a with
  | .save _ => inferInstanceAs (Decidable True)
  | .prune stop e => inferInstanceAs (Decidable (Aligned r.hist.store r.base stop e))

/-- **One step** keeps what is needed. -/
theorem Good.next (h : Good crypto r) {a : Action crypto} (hcareful : r.Careful a)
    (hn : r.next hashResults a = some r') : Good crypto r' := by
  cases a with
  | save d =>
    obtain ⟨hist, hhist, rfl⟩ := Option.map_eq_some_iff.mp hn
    exact h.save hhist
  | prune stop e =>
    unfold Retention.next at hn
    dsimp only at hn
    split at hn
    · rename_i hcall
      obtain ⟨store', n, hprune, hkeeps⟩ := h.prune_keeps hcall hcareful
      rw [hprune] at hn
      cases hn
      exact h.prune hcall hkeeps
    · cases hn

end Retention

open Retention

/-- **Pruning keeps what it must**, in every run of saves and prunings each of which keeps the
checkpoint that is needed: the call succeeds, and what can be loaded of the retained heights is what
could be loaded before. -/
theorem pruning_keeps {now : Time} {genDoc : GenesisDoc} {s₀ : State}
    (hgen : makeGenesisState crypto now genDoc = .ok s₀) (hne : genDoc.vals ≠ [])
    (hkeys : ∀ v ∈ genDoc.vals, decodesKey v.pubKey = true) {store₀ store : Store}
    (hsave : store₀.save s₀ = .ok store) {r : Retention}
    (hrun : Steps (Retention.next hashResults) (fun r (a : Action crypto) => r.Careful a)
      ⟨⟨store, s₀, []⟩, s₀.initialHeight, s₀.initialHeight⟩ r) {stop e : ℤ}
    (hcall : r.Callable stop e) (haligned : Aligned r.hist.store r.base stop e) :
    ∃ store' n, r.pruneStates crypto stop e = (store', n, none) ∧
      (∀ height, stop ≤ height → height ≤ r.hist.last.nextHeight →
        ∃ params, r.hist.store.loadConsensusParams height = .ok params ∧
          store'.loadConsensusParams height = .ok params) ∧
      ∀ height, e ≤ height → height ≤ r.hist.last.nextHeight + 1 →
        ∃ vals, r.hist.store.loadValidators crypto height = .ok vals ∧
          store'.loadValidators crypto height = .ok vals := by
  have hgood : Good crypto r :=
    hrun.invariant (good_of_founded (founded_of_makeGenesisState hgen hne hkeys) hsave)
      fun _ _ _ hi hcareful hn => hi.next hcareful hn
  obtain ⟨store', n, hprune, hkeeps⟩ := hgood.prune_keeps hcall haligned
  obtain ⟨hlt, -, hbe, -⟩ := hcall
  have hev := hgood.evidence_le
  refine ⟨store', n, hprune, fun height hlo hhi => ?_, fun height hlo hhi => ?_⟩
  · obtain ⟨c, params, hrec⟩ := hgood.params height (by omega) hhi
    obtain ⟨hsame, hstored⟩ := hkeeps.params height hlo hhi
    exact ⟨params, hrec.loadConsensusParams,
      (hrec.congr hsame (hstored c hrec.changed)).loadConsensusParams⟩
  · obtain ⟨vals, c, hrec⟩ := hgood.recorded (by omega) hhi
    obtain ⟨vals', hload⟩ := hrec.loadValidators_ok
    obtain ⟨hsame, hstored⟩ := hkeeps.validators height hlo hhi
    refine ⟨vals', hload, (Store.loadValidators_congr hsame fun info hinfo => ?_).trans hload⟩
    exact hstored _ (by rw [Store.validatorsChanged, hinfo]; rfl)

/-- Two prunings of a short chain. -/
theorem pruning_keeps_twice : ∃ start r,
    historyOf (genesisOf [(1, 3), (2, 1)]) = .ok start ∧
    execWhere (Retention.next fun _ => []) (fun r a => r.Careful a) ⟨start, 1, 1⟩
      [.save (blockAt 1 []), .save (blockAt 2 [(3, 2)]), .save (blockAt 3 []), .prune 3 2,
        .save (blockAt 4 [])] = some r ∧
    r.Callable 5 4 ∧ Aligned r.hist.store r.base 5 4 ∧
    ∃ store' n, r.pruneStates keyedHashes.toCrypto 5 4 = (store', n, none) ∧
      ∃ vals, r.hist.store.loadValidators keyedHashes.toCrypto 6 = .ok vals ∧
        store'.loadValidators keyedHashes.toCrypto 6 = .ok vals := by
  obtain ⟨start, r, hstart, hr, hinitial, hnext, hcall, haligned⟩ : ∃ start r,
      historyOf (genesisOf [(1, 3), (2, 1)]) = .ok start ∧
      execWhere (Retention.next fun _ => []) (fun r a => r.Careful a) ⟨start, 1, 1⟩
        [.save (blockAt 1 []), .save (blockAt 2 [(3, 2)]), .save (blockAt 3 []), .prune 3 2,
          .save (blockAt 4 [])] = some r ∧
      start.last.initialHeight = 1 ∧ r.hist.last.nextHeight + 1 = 6 ∧ r.Callable 5 4 ∧
        Aligned r.hist.store r.base 5 4 :=
    exists_of_any (by decide +kernel)
  obtain ⟨hgen, hsave, hpast⟩ := historyOf_eq_ok hstart
  obtain ⟨store, s₀, past⟩ := start
  subst hpast
  have hsteps := steps_of_execWhere hr
  obtain ⟨store', n, hprune, -, hvals⟩ := pruning_keeps hgen (by decide) (by decide) hsave
    (by rw [hinitial]; exact hsteps) hcall haligned
  exact ⟨_, r, hstart, hr, hcall, haligned, store', n, hprune, hvals 6 (by decide) hnext.ge⟩

/-! ### A chain whose checkpoint is pruned -/

/-- As many blocks that change nothing. -/
theorem Retention.Good.exists_quiet {r : Retention} (h : Good crypto r)
    (hashResults : List TxResult → Bytes) {d : ℤ → Decision crypto} (hheight : ∀ height, (d height).header.height = height)
    (hupdates : ∀ height, (d height).updates = [])
    (hparams : ∀ height, (d height).resp.consensusParamUpdates = none) (n : ℕ) :
    ∃ r' : Retention,
      Steps (Retention.next hashResults) (fun r (a : Action crypto) => r.Careful a) r r' ∧
      Good crypto r' ∧ r'.base = r.base ∧
      r'.hist.last.nextHeight = r.hist.last.nextHeight + n ∧
      r'.hist.last.lastHeightValidatorsChanged = r.hist.last.lastHeightValidatorsChanged := by
  induction n with
  | zero => exact ⟨r, .refl r, h, rfl, (add_zero _).symm, rfl⟩
  | succ n ih =>
    obtain ⟨mid, hsteps, hmid, hbase, hnext, hchanged⟩ := ih
    obtain ⟨hist, hhist⟩ := hmid.validators.exists_next hashResults
      (hheight mid.hist.last.nextHeight) (hupdates _) (hparams _)
    have hn : mid.next hashResults (.save (d mid.hist.last.nextHeight)) =
        some { mid with hist := hist } := by
      show (mid.hist.next hashResults _).map _ = _
      rw [hhist]
      rfl
    have hsaved := hmid.validators.saved hhist
    refine ⟨_, hsteps.tail (show mid.Careful (.save _) from trivial) hn, hmid.save hhist, hbase, ?_, ?_⟩
    · show hist.last.nextHeight = _
      rw [hsaved.nextHeight, hnext]
      push_cast
      ring
    · show hist.last.lastHeightValidatorsChanged = _
      rcases hsaved.changed with ⟨hne, -⟩ | ⟨-, hc, -⟩
      · exact absurd (hupdates _) hne
      · rw [hc, hchanged]

/-- **The checkpoint is pruned.** A chain with one validator at height 300001, whose states are pruned
up to height 300000; evidence is at most 100000 blocks old. The validators of height 200001 and of those
after are rebuilt from the ones of height 200000. -/
theorem checkpoint_pruned : ∃ start r store' n,
    historyOf (genesisOf [(1, 1)]) = .ok start ∧
    Reachable (Retention.next fun _ => [] : Retention → Action keyedHashes.toCrypto → _)
      ⟨start, 1, 1⟩ r ∧
    r.hist.last.nextHeight = 300002 ∧ r.Callable 300000 200001 ∧
    (∃ vals, r.hist.store.loadValidators keyedHashes.toCrypto 200001 = .ok vals) ∧
    r.pruneStates keyedHashes.toCrypto 300000 200001 = (store', n, none) ∧
    store'.loadValidators keyedHashes.toCrypto 200001 =
      .error (.err (.validatorsNotFound 200000 200001)) := by
  have hstart : (match historyOf (genesisOf [(1, 1)]) with
      | .error _ => false
      | .ok start => start.last.initialHeight = 1) = true := by
    decide +kernel
  split at hstart
  · cases hstart
  rename_i start hhist
  have hinitial : start.last.initialHeight = 1 := of_decide_eq_true hstart
  obtain ⟨hgen, hsave, hpast⟩ := historyOf_eq_ok hhist
  have hfounded := founded_of_makeGenesisState hgen (by decide) (by decide)
  have hgood : Good keyedHashes.toCrypto ⟨start, 1, 1⟩ := by
    have hgood := good_of_founded hfounded hsave
    rw [hinitial, ← hpast] at hgood
    exact hgood
  obtain ⟨r, hsteps, hr, hbase, hnext, hchanged⟩ := hgood.exists_quiet (fun _ => [])
    (d := fun height => blockAt height []) (fun _ => rfl) (fun _ => rfl) (fun _ => rfl) 300001
  replace hbase : r.base = 1 := hbase
  replace hnext : r.hist.last.nextHeight = 300002 := by
    rw [hnext]
    show start.last.nextHeight + 300001 = 300002
    rw [hfounded.nextHeight, hinitial]
    rfl
  replace hchanged : r.hist.last.lastHeightValidatorsChanged = 1 :=
    hchanged.trans (hfounded.validatorsChanged.trans hinitial)
  have hcall : r.Callable 300000 200001 := by
    unfold Callable
    rw [hbase, hnext]
    decide
  have hev := hr.evidence_le
  obtain ⟨vals, c, hrec⟩ := hr.recorded (by omega : r.evidence ≤ 200001) (by omega)
  obtain ⟨pc, p, hparams⟩ := hr.params 300000 (by omega) (by omega)
  -- the validators never changed
  obtain rfl : c = 1 := by
    have hlast := hr.validators.nextRecorded.changed
    rw [hchanged] at hlast
    rcases hr.ordered 200001 _ c 1 (by omega) (by omega) le_rfl hrec.changed hlast with hc | hc
    · exact hc.symm
    · omega
  have hnotfull : ¬Full valSetCheckpointInterval 200001 1 := by decide
  have hprune := hr.pruneStates_eq hcall hrec hparams hparams.entry
  refine ⟨start, r, _, _, hhist, hsteps.reachable, hnext, hcall, hrec.loadValidators_ok, hprune, ?_⟩
  unfold Store.loadValidators
  rw [(Store.foldl_deletionsFrom _ _ _).1, if_neg (by omega), hrec.entry, validatorsEntry,
    if_neg hnotfull]
  dsimp only
  have hstored : lastStoredHeightFor 200001 1 = 200000 := by decide
  rw [hstored, (Store.foldl_deletionsFrom _ _ _).1, if_pos]
  refine ⟨by omega, by omega, by omega, ?_⟩
  show decide ((none : Option ValidatorSetProto) = none ∧
    ((200000 : ℤ) = 1 ∨ 200000 = lastStoredHeightFor 300000 1)) = false
  decide

end CometBFT.Sm
