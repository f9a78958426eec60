import CometBFT.Mediation.Queues
import CometBFT.Mediation.Fatal

/-!
# What shutdown leaves behind

`stopLocked` closes both queues, waits for the workers, and empties what they left in the queues.
If the workers do not stop in time it records a fatal error instead and leaves the queues as they
are. Once the queues have been emptied nothing enters them again, no worker is running and no
other teardown begins.

## Main results

* `released_settled` — the state of affairs once `releaseQueuedReservations` has returned
* `tornDown_of_stopReturned` — a `Stop` that returned has emptied the queues or is fatal
-/

namespace CometBFT.Mediation

open Event State Goroutines

open Pool (total)

variable {P : Type*} {m : Service P} {s : Shared} {ch : Choice}

/-! ### Emptying the queues -/

/-- `releaseQueuedReservations` is done with `outboundQueue`. -/
@[simp] def StopPc.outboundDrained : StopPc → Bool
  | .drainCallback | .callbackSlot _ | .callbackBytes _ => true
  | _ => false

/-- The program counter of a teardown, as far as `outboundQueue` is concerned. -/
@[simp] def outboundDrained : Proc P → Bool
  | .lifecycle (.teardown _ pc) => pc.outboundDrained
  | _ => false

variable {t : Thread P} {r : Effect P}

theorem Thread.step_outboundDrained (h : t.step m s ch = some r)
    (hd : outboundDrained r.thread.proc = true) :
    outboundDrained t.proc = true ∨ r.shared.outboundQueue.buf = [] := by
  cases Thread.stepped h <;> rename_i hr
  case fatal => exact .inl hd
  all_goals cases hr
  case lifecycle.outboundDrained hb => exact .inr hb
  all_goals first | cases hd; done | exact .inl rfl

variable {st : State P} {i : ℕ}

/-- A teardown is known to the script of `Start` and `Stop`. -/
theorem held_teardown (hr : m.Reaches st) {ret : Returned} {pc : StopPc}
    (hi : st.threads[i]? = some t) (hp : t.proc = .lifecycle (.teardown ret pc)) :
    st.view.Held st.shared.workers (.teardown ret pc) :=
  (life hr).of_held i t hi (by simp [Ledger.Holds, lifecycleMuLedger, hp]) _ hp

theorem closed_of_outboundDrained (hr : m.Reaches st) (hi : st.threads[i]? = some t)
    (hd : outboundDrained t.proc = true) :
    st.shared.outboundQueue.closed = true := by
  unfold outboundDrained at hd
  split at hd
  · rename_i ret pc hp
    obtain ⟨-, -, -, -, -, hclosed, -⟩ := held_teardown hr hi hp
    refine (show st.shared.outboundQueue.closed = pc.outboundClosed from hclosed).trans ?_
    cases pc <;> first | rfl | cases hd
  · cases hd

/-- Once the drain has gone on to `callbackQueue`, `outboundQueue` is empty. -/
theorem outbound_empty_of_drained (hr : m.Reaches st)
    (hi : st.threads[i]? = some t) : outboundDrained t.proc = true →
      st.shared.outboundQueue.buf = [] := by
  refine Machine.threads_invariant ?_ (fun _ _ _ _ _ h => h) (fun _ _ _ _ _ _ h _ => h) ?_ ?_ ?_ hr hi
  · intro st c _ hd
    cases c <;> cases hd
  · intro st i ch t r hmv ih hd
    rcases Thread.step_outboundDrained hmv.step hd with ht | hb
    · exact (outbound_stays_empty hmv (closed_of_outboundDrained hmv.runs hmv.thread ht)
        (ih i t hmv.thread ht)).1
    · exact hb
  · intro st i ch t r j u hmv _ hj ih hd
    exact (outbound_stays_empty hmv (closed_of_outboundDrained hmv.runs hj hd) (ih hd)).1
  · intro st i ch t r j u hmv _ hu hd
    rcases Thread.mem_launched hmv.step hu with rfl | rfl | rfl <;> cases hd

/-! ### Afterwards -/

/-- Both queues are closed and empty, and no worker is running. -/
structure Shared.Settled (s : Shared) : Prop where
  outboundClosed : s.outboundQueue.closed = true
  outboundEmpty : s.outboundQueue.buf = []
  callbackClosed : s.callbackQueue.closed = true
  callbackEmpty : s.callbackQueue.buf = []
  workers : s.workers = 0

/-- `releaseQueuedReservations` returns from a teardown that has emptied both queues. -/
theorem Thread.step_released (h : t.step m s ch = some r) (he : .released ∈ r.events) :
    ∃ ret, t.proc = .lifecycle (.teardown ret .drainCallback) ∧ r.shared = s ∧
      s.callbackQueue.buf = [] := by
  rcases quiet_or_lifecycle h with hq | ⟨pc, r', rfl, hr, rfl⟩
  · cases hq.events _ he
  · cases hr
    case callbackDrained ret hb => exact ⟨ret, rfl, rfl, hb⟩
    all_goals simp [Result.crash] at he

/-- No teardown is in progress once `releaseQueuedReservations` has returned. -/
theorem not_teardown_of_released (hr : m.Reaches st) (hpos : 0 < st.count isReleased)
    (hi : st.threads[i]? = some t) (ret : Returned) (pc : StopPc) :
    t.proc ≠ .lifecycle (.teardown ret pc) := by
  intro hp
  obtain ⟨-, -, -, hrel, -⟩ := held_teardown hr hi hp
  have : st.count isReleased = 0 := hrel
  omega

/-- The wait group goes up only in `Start`, before any teardown. -/
theorem workers_stay_zero (h : Moves m st i ch t r) (hc : st.shared.outboundQueue.closed = true)
    (hw : st.shared.workers = 0) : r.shared.workers = 0 := by
  rcases quiet_or_lifecycle h.step with hq | ⟨pc, r', rfl, hr, rfl⟩
  · exact hq.workers hw
  · cases hr
    case listen =>
      have hheld : st.view.Held st.shared.workers .listen :=
        (life h.runs).of_held i _ h.thread rfl _ rfl
      have hopen : st.shared.outboundQueue.closed = false := hheld.2.2.2.2.1
      cases hc.symm.trans hopen
    all_goals exact hw

/-- **Once `releaseQueuedReservations` has returned, everything is settled.** -/
theorem released_settled (hr : m.Reaches st) :
    0 < st.count isReleased → st.shared.Settled := by
  refine Machine.invariant (by simp [start, count]) (fun _ _ _ ih => ih) ?_ ?_ hr
  · intro st s' a _ ih _ hpos
    obtain ⟨h₁, h₂, h₃, h₄, h₅⟩ := ih hpos
    exact ⟨h₁, h₂, h₃, h₄, h₅⟩
  · intro st i ch t r hmv ih hpos
    rcases Nat.eq_zero_or_pos (count st isReleased) with h0 | hold
    · -- the step on which it returns
      have hev : .released ∈ r.events := by
        rw [count_move, h0, Nat.zero_add] at hpos
        obtain ⟨e, he, hrel⟩ := List.countP_pos_iff.mp hpos
        cases e <;> first | exact he | cases hrel
      obtain ⟨ret, hp, hsame, hempty⟩ := Thread.step_released hmv.step hev
      obtain ⟨-, -, -, -, -, ho, hc, hw⟩ := held_teardown hmv.runs hmv.thread hp
      rw [Goroutines.Config.move_shared, hsame]
      exact ⟨ho, outbound_empty_of_drained hmv.runs hmv.thread (by rw [hp]; rfl), hc, hempty,
        hw rfl⟩
    · obtain ⟨h₁, h₂, h₃, h₄, h₅⟩ := ih hold
      rw [Goroutines.Config.move_shared]
      exact ⟨(closed_stays hmv).1 h₁, (outbound_stays_empty hmv h₁ h₂).1, (closed_stays hmv).2 h₃,
        (callback_stays_empty hmv h₃ h₄).1, workers_stay_zero hmv h₁ h₅⟩

/-! ### What a returned `Stop` means -/

/-- The queues have been emptied, or shutdown has gone wrong and there is a fatal error. -/
def State.TornDown (st : State P) : Prop :=
  0 < st.count isReleased ∨ st.shared.fatalErr.isSome = true

theorem State.TornDown.move (h : st.TornDown) (hstep : t.step m st.shared ch = some r) :
    (st.move i r).TornDown := by
  rcases h with h | h
  · left
    rw [count_move]
    omega
  · obtain ⟨e, he⟩ := Option.isSome_iff_exists.mp h
    exact .inr (by rw [Goroutines.Config.move_shared, (Thread.step_fatalErr hstep he).1]; rfl)

/-- What the `Start` or `Stop` in progress, at goroutine `t`, knows of an earlier teardown or of its
own. A timeout is raised just before the return, with `fatal` still to be called. -/
def State.TornHeld (st : State P) (t : Thread P) : Prop :=
  ∀ pc, t.proc = .lifecycle pc →
    match pc with
    | .startCheck | .stopCheck => st.shared.lifecycle = .stopped → st.TornDown
    | .unlock _ l => l = .stopped →
        st.TornDown ∨ st.count isStopReturned = 0 ∧ ∃ e, t.fatal = some (.record e)
    | _ => True

theorem FatalMoves.record_isSome {e : MediationFatalError}
    {x : Shared × Option FatalPc × List (Event P)} (h : FatalMoves s (.record e) x) :
    x.1.fatalErr.isSome = true := by
  cases h with
  | known he => exact he
  | record => rfl

/-- A step that is not one of `Start` and `Stop` keeps what the holder knows. -/
theorem State.TornHeld.move_quiet {u : Thread P} (h : st.TornHeld u)
    (hstep : t.step m st.shared ch = some r)
    (hq : Quiet st.shared r.shared t.proc r.thread.proc r.launched r.events) :
    (st.move i r).TornHeld u := by
  have hret : (st.move i r).count isStopReturned = st.count isStopReturned := by
    rw [count_move, countP_of_quiet (isLifecycle_of · |>.2.1) hq.events, Nat.add_zero]
  intro pc hp
  have := h pc hp
  cases pc
  case startCheck => exact fun hl => (this (hq.lifecycle.symm.trans hl)).move hstep
  case stopCheck => exact fun hl => (this (hq.lifecycle.symm.trans hl)).move hstep
  case unlock ret l =>
    intro hl
    rw [hret]
    exact (this hl).imp (fun h => h.move hstep) id
  all_goals trivial

/-- A step of `fatal` made by the holder itself keeps what it knows. -/
theorem State.TornHeld.move_fatal (h : st.TornHeld t) (hstep : t.step m st.shared ch = some r)
    (hq : Quiet st.shared r.shared t.proc r.thread.proc r.launched r.events) :
    (st.move i r).TornHeld r.thread := by
  intro pc hp
  have := h.move_quiet (i := i) hstep hq pc (hq.inside pc hp)
  cases pc
  case unlock ret l =>
    intro hl
    rcases this hl with htorn | ⟨-, e, he⟩
    · exact .inl htorn
    · cases Thread.stepped hstep <;> cases he
      rename_i hx
      exact .inl (.inr hx.record_isSome)
  all_goals exact this

/-- A step of `Start` or `Stop` keeps what it knows, and passes it on as it returns. -/
theorem State.TornHeld.move_lifecycle {pc : LifecyclePc} {r : Result P LifecyclePc}
    (hreach : m.Reaches st) (hi : st.threads[i]? = some ⟨none, .lifecycle pc⟩)
    (hr : LifecycleMoves m st.shared ch pc r)
    (hstep : Thread.step m st.shared ch ⟨none, .lifecycle pc⟩ = some (r.lift .lifecycle))
    (h : st.TornHeld ⟨none, .lifecycle pc⟩)
    (hpc : holdsLifecycleMu (Proc.lifecycle pc : Proc P) = 1) :
    (st.move i (r.lift .lifecycle)).TornHeld (r.lift .lifecycle).thread ∧
      (holdsLifecycleMu (Proc.lifecycle r.pc : Proc P) ≠ 1 → r.shared.lifecycle = .stopped →
        (st.move i (r.lift .lifecycle)).TornDown) := by
  have hheld := h pc rfl
  have hleft : ∀ {l}, (∃ ret, pc = .unlock ret l) → l = .stopped → st.TornDown := by
    rintro l ⟨ret, rfl⟩ hl
    exact (hheld hl).resolve_right fun ⟨_, e, he⟩ => by cases he
  cases hr
  case startLock => cases hpc
  case stopLock => cases hpc
  case started =>
    refine ⟨?_, fun hfree => absurd rfl hfree⟩
    rintro _ ⟨⟩ hl
    exact .inl ((hheld hl).move hstep)
  case stopped hl =>
    refine ⟨?_, fun hfree => absurd rfl hfree⟩
    rintro _ ⟨⟩ -
    exact .inl ((hheld hl).move hstep)
  case unlock =>
    refine ⟨?_, fun _ hl => (hleft ⟨_, rfl⟩ hl).move hstep⟩
    rintro _ ⟨⟩
    trivial
  case unlocked =>
    refine ⟨?_, fun hfree => absurd rfl hfree⟩
    rintro _ ⟨⟩ hl
    exact .inl ((hleft ⟨_, rfl⟩ hl).move hstep)
  -- `stopLocked` returns after emptying the queues, or raises the timeout
  case callbackDrained =>
    refine ⟨?_, fun hfree => absurd rfl hfree⟩
    rintro _ ⟨⟩ -
    refine .inl (.inl ?_)
    rw [count_move]
    exact Nat.succ_pos _
  case timeout =>
    refine ⟨?_, fun hfree => absurd rfl hfree⟩
    rintro _ ⟨⟩ -
    refine .inr ⟨?_, _, rfl⟩
    rw [count_move]
    exact (held_teardown hreach hi rfl).2.2.1
  all_goals
    refine ⟨?_, fun hfree => absurd rfl hfree⟩
    rintro _ ⟨⟩
    first | trivial | exact fun hl => by cases hl

theorem torn (hr : m.Reaches st) :
    Pool.Guarded lifecycleMuLedger.Holds st.threads
      (st.shared.lifecycle = .stopped → st.TornDown) fun _ t => st.TornHeld t := by
  refine (lifecycleMuLedger.lock m (by simp [locks])).invariant rfl
    (F := fun st => st.shared.lifecycle = .stopped → TornDown st)
    (H := fun st _ t => TornHeld st t) (fun h => by cases h)
    (fun _ _ _ => ⟨id, fun _ _ => id⟩) (fun _ _ _ _ _ => ⟨id, fun _ _ => id⟩) ?_ hr
  rintro st i ch t r ⟨hreach, -, -, hi, hstep⟩
  change t.step m st.shared ch = some r at hstep
  rcases quiet_or_lifecycle hstep with hq | ⟨pc, r, rfl, hr, rfl⟩
  · have hiff : lifecycleMuLedger.Holds r.thread ↔ lifecycleMuLedger.Holds t := by
      simp only [Ledger.Holds, lifecycleMuLedger, hq.holds]
    exact ⟨fun _ _ h => h.move_fatal hstep hq, fun h₁ h₂ => absurd (hiff.mpr h₁) h₂,
      fun h₁ h₂ => absurd (hiff.mp h₂) h₁, fun _ _ =>
        ⟨fun h hl => (h (hq.lifecycle.symm.trans hl)).move hstep,
          fun _ u _ _ h => h.move_quiet hstep hq⟩⟩
  · refine ⟨fun h₁ _ h => (h.move_lifecycle hreach hi hr hstep h₁).1,
      fun h₁ h₂ h => (h.move_lifecycle hreach hi hr hstep h₁).2 h₂, fun h₁ _ h => ?_,
      fun h₁ h₂ => ?_⟩
    · rintro pc' ⟨⟩
      cases hr <;> first | exact absurd rfl h₁ | exact fun hl => (h hl).move hstep
    · cases hr <;> first | exact absurd rfl h₁ | exact absurd rfl h₂

/-- **A `Stop` that returned has emptied the queues, or there is a fatal error.** -/
theorem tornDown_of_stopReturned (hr : m.Reaches st) (hret : 0 < st.count isStopReturned) :
    st.TornDown := by
  -- while the view is open no `Stop` has returned
  have hopen : ∀ v : View, st.count isStopReturned ≤ v.stopReturned → ¬ v.Open := by
    intro v hv h
    have := h.2.2.2.1
    omega
  have hstopped : ∀ v : View, st.count isStopReturned ≤ v.stopReturned → v.Free →
      v.lifecycle = .stopped := by
    intro v hv h
    obtain ⟨-, h⟩ := h
    cases hl : v.lifecycle <;> simp only [hl] at h
    case new => exact absurd h.2.2 (hopen v hv)
    case running => exact absurd h.2 (hopen v hv)
    case stopped => rfl
  by_cases hnone : ∀ t ∈ st.threads, ¬ lifecycleMuLedger.Holds t
  · exact (torn hr).of_free hnone (hstopped _ le_rfl ((life hr).of_free hnone))
  · push Not at hnone
    obtain ⟨t, hmem, ht⟩ := hnone
    obtain ⟨i, hi⟩ := List.getElem?_of_mem hmem
    have hlife := (life hr).of_held i t hi ht
    have htorn := (torn hr).of_held i t hi ht
    cases hp : t.proc <;> simp [Ledger.Holds, lifecycleMuLedger, hp] at ht
    rename_i pc
    have hv := hlife pc hp
    have htorn := htorn pc hp
    cases pc
    case startLock => simp at ht
    case stopLock => simp at ht
    case done => simp at ht
    case startCheck => exact htorn (hstopped _ le_rfl hv)
    case stopCheck => exact htorn (hstopped _ le_rfl hv)
    case teardown ret pc =>
      have : st.count isStopReturned = 0 := hv.2.2.1
      omega
    case unlock ret l =>
      refine (htorn (hstopped _ (Nat.le_add_right _ _) hv)).resolve_right fun h => ?_
      omega
    all_goals exact absurd hv.2.2.2 (hopen _ le_rfl)

end CometBFT.Mediation
