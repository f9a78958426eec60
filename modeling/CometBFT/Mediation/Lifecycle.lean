import CometBFT.Mediation.Ledger

/-!
# The life of the service

`Start` and `Stop` hold `lifecycleMu` throughout, so the flags, the closing of the queues and the
launching of the workers follow one script. `View` collects what that script writes, `View.Free`
says what the view looks like while no `Start` or `Stop` is in progress, and `View.Held` what it
looks like at each program counter of the one that is. Nobody else writes the view, which makes
this a lock invariant.

## Main results

* `life` — the script is followed in every reachable state
* `stopping_of_outboundClosed`, `stopping_of_callbackClosed`, `closed_of_stopReturned` — what the
  other goroutines need to know of it
-/

namespace CometBFT.Mediation

open Event State Goroutines

open Pool (total)

variable {P : Type*} {m : Service P}

/-! ### Observations -/

/-- How many events of a kind have been observed. -/
def State.count (st : State P) (p : Event P → Bool) : ℕ := st.trace.countP fun e => p e.2

theorem State.count_move (st : State P) (p : Event P → Bool) (i : ℕ) (r : Effect P) :
    (st.move i r).count p = st.count p + r.events.countP p := by
  simp [count, Goroutines.Config.move, List.countP_append, List.countP_map, Function.comp_def]

/-- A `Start` returned nil. -/
@[simp] def Event.isStarted : Event P → Bool
  | .returned (.start none) => true
  | _ => false

/-- A `Stop` returned. -/
@[simp] def Event.isStopReturned : Event P → Bool
  | .returned .stop => true
  | _ => false

/-- `releaseQueuedReservations` returned. -/
@[simp] def Event.isReleased : Event P → Bool
  | .released => true
  | _ => false

@[simp] def isSubmission : Proc P → ℤ
  | .submission _ => 1
  | _ => 0

@[simp] def isReinjection : Proc P → ℤ
  | .reinjection _ => 1
  | _ => 0

/-! ### The view -/

/-- What `Start` and `Stop` write: the lifecycle state, flags and queues of the record, the number
of workers of each kind ever launched, and how often they have returned. -/
@[ext] structure View where
  lifecycle : Lifecycle
  everReady : Bool
  stopping : Bool
  outboundClosed : Bool
  callbackClosed : Bool
  submissions : ℤ
  reinjections : ℤ
  started : ℕ
  stopReturned : ℕ
  released : ℕ

/-- The view of a record, given how many workers of each kind have been launched and how many
calls have returned. -/
@[simps] def Shared.view (s : Shared) (submissions reinjections : ℤ)
    (started stopReturned released : ℕ) : View where
  lifecycle := s.lifecycle
  everReady := s.everReady
  stopping := s.stopping
  outboundClosed := s.outboundQueue.closed
  callbackClosed := s.callbackQueue.closed
  submissions := submissions
  reinjections := reinjections
  started := started
  stopReturned := stopReturned
  released := released

def State.view (st : State P) : View :=
  st.shared.view (total (fun t => isSubmission t.proc) st.threads)
    (total (fun t => isReinjection t.proc) st.threads)
    (st.count isStarted) (st.count isStopReturned) (st.count isReleased)

namespace View

/-- Not yet torn down. -/
def Open (v : View) : Prop :=
  v.stopping = false ∧ v.outboundClosed = false ∧ v.callbackClosed = false ∧
    v.stopReturned = 0 ∧ v.released = 0

/-- The workers are launched together, at most once, and before the service becomes ready; a
`Start` that made it ready has returned nil. -/
def Launched (v : View) : Prop :=
  v.reinjections = v.submissions ∧ (v.submissions = 0 ∧ v.everReady = false ∨ v.submissions = 1) ∧
    v.started = v.everReady.toNat

/-- The view while no `Start` and no `Stop` is in progress. -/
def Free (v : View) : Prop :=
  v.Launched ∧
    match v.lifecycle with
    | .new => v.everReady = false ∧ v.submissions = 0 ∧ v.Open
    | .running => v.everReady = true ∧ v.Open
    | .stopped => v.stopping = true ∧ v.outboundClosed = true ∧ v.callbackClosed = true
    | .starting | .stopping => False

/-- The view after `Start` or `Stop` has returned `r`, leaving lifecycle state `l`. -/
def leave (v : View) (r : Returned) (l : Lifecycle) : View :=
  { v with
    lifecycle := l
    started := v.started + (if r = .start none then 1 else 0)
    stopReturned := v.stopReturned + (if r = .stop then 1 else 0) }

end View

namespace StopPc

/-- `stopping` has been set. -/
@[simp] def flagged : StopPc → Bool
  | .flags => false
  | _ => true

/-- `outboundQueue` has been closed. -/
@[simp] def outboundClosed : StopPc → Bool
  | .flags | .shutdown | .takeGate | .closeOutbound => false
  | _ => true

/-- `callbackQueue` has been closed. -/
@[simp] def callbackClosed : StopPc → Bool
  | .flags | .shutdown | .takeGate | .closeOutbound | .putGate | .lockCallback
  | .closeCallback => false
  | _ => true

/-- `releaseQueuedReservations` is running, so the workers have been seen to be done. -/
@[simp] def draining : StopPc → Bool
  | .drainOutbound | .outboundSlot _ | .outboundBytes _ | .drainCallback | .callbackSlot _
  | .callbackBytes _ => true
  | _ => false

end StopPc

/-- The view at each program counter of the `Start` or `Stop` in progress. -/
def View.Held (v : View) (workers : ℕ) : LifecyclePc → Prop
  | .startLock | .stopLock | .done => True
  | .startCheck | .stopCheck => v.Free
  | .listen => v.Launched ∧ v.everReady = false ∧ v.submissions = 0 ∧ v.Open
  | .register _ | .retry _ | .becomeReady =>
    v.Launched ∧ v.everReady = false ∧ v.submissions = 1 ∧ v.Open
  | .teardown r pc =>
    r ≠ .start none ∧ v.Launched ∧ v.stopReturned = 0 ∧ v.released = 0 ∧ v.stopping = pc.flagged ∧
      v.outboundClosed = pc.outboundClosed ∧ v.callbackClosed = pc.callbackClosed ∧
      (pc.draining = true → workers = 0)
  | .unlock r l => (v.leave r l).Free

/-- The half of the invariant that is about the goroutine holding `lifecycleMu`. -/
def State.LifeHeld (st : State P) (t : Thread P) : Prop :=
  ∀ pc, t.proc = .lifecycle pc → st.view.Held st.shared.workers pc

/-- The script of `Start` and `Stop` is followed. -/
def State.Life (st : State P) : Prop :=
  Pool.Guarded lifecycleMuLedger.Holds st.threads st.view.Free fun _ t => st.LifeHeld t

/-! ### Who writes the view -/

/-- The events of `Start` and `Stop`. -/
@[simp] def Event.isLifecycle : Event P → Bool
  | .returned _ | .outboundClosed | .callbackClosed | .outboundDrained _ | .callbackDrained _
  | .released => true
  | _ => false

/-- The fields of the view. -/
def Shared.script (s : Shared) : Lifecycle × Bool × Bool × Bool × Bool :=
  (s.lifecycle, s.everReady, s.stopping, s.outboundQueue.closed, s.callbackQueue.closed)

/-- A step that leaves the view alone: it writes none of the fields, keeps the kinds of the
goroutines, and reports nothing that `Start` and `Stop` report. -/
structure Quiet (s s' : Shared) (p p' : Proc P) (launched : List (Thread P))
    (events : List (Event P)) : Prop where
  script : s'.script = s.script
  ready : s'.ready = true → s.ready = true
  workers : s.workers = 0 → s'.workers = 0
  launched : launched = []
  events : ∀ e ∈ events, e.isLifecycle = false
  submission : isSubmission p' = isSubmission p
  reinjection : isReinjection p' = isReinjection p
  holds : holdsLifecycleMu p' = holdsLifecycleMu p
  inside : ∀ pc, p' = .lifecycle pc → p = .lifecycle pc

namespace Quiet

variable {s s' : Shared} {p p' : Proc P} {launched : List (Thread P)} {events : List (Event P)}

section

variable (h : Quiet s s' p p' launched events)

include h

theorem lifecycle : s'.lifecycle = s.lifecycle :=
  congrArg (·.1) h.script

theorem everReady : s'.everReady = s.everReady :=
  congrArg (·.2.1) h.script

theorem stopping : s'.stopping = s.stopping :=
  congrArg (·.2.2.1) h.script

theorem outboundClosed : s'.outboundQueue.closed = s.outboundQueue.closed :=
  congrArg (·.2.2.2.1) h.script

theorem callbackClosed : s'.callbackQueue.closed = s.callbackQueue.closed :=
  congrArg (·.2.2.2.2) h.script

end

end Quiet

variable {s : Shared} {ch : Choice}

variable {r : Effect P} {t : Thread P} {i : ℕ} {pc : LifecyclePc}

/-- Only `Start` and `Stop` write the view. -/
theorem quiet_or_lifecycle (h : t.step m s ch = some r) :
    Quiet s r.shared t.proc r.thread.proc r.launched r.events ∨
    ∃ pc r', t = ⟨none, .lifecycle pc⟩ ∧ LifecycleMoves m s ch pc r' ∧ r = r'.lift .lifecycle := by
  cases Thread.stepped h <;> rename_i hr
  case lifecycle => exact .inr ⟨_, _, rfl, hr, rfl⟩
  case fatal =>
    left
    cases hr
    case record => exact ⟨rfl, nofun, id, rfl, by simp, rfl, rfl, rfl, fun _ => id⟩
    all_goals exact ⟨rfl, id, id, rfl, by simp, rfl, rfl, rfl, fun _ => id⟩
  all_goals
    suffices hs : _ ∧ _ ∧ _ ∧ _ ∧ _ from
      .inl ⟨hs.1, hs.2.1, hs.2.2.1, hs.2.2.2.1, hs.2.2.2.2, rfl, rfl, rfl, fun _ h => by cases h⟩
    cases hr
  case submit.enqueue hc => exact ⟨by simp [Shared.script, hc], id, id, rfl, by simp⟩
  case serve.enqueue hc => exact ⟨by simp [Shared.script, hc], id, id, rfl, by simp⟩
  case submission.exit hw => exact ⟨rfl, id, fun h => absurd h hw.ne', rfl, by simp⟩
  case reinjection.exit hw => exact ⟨rfl, id, fun h => absurd h hw.ne', rfl, by simp⟩
  all_goals
    refine ⟨rfl, id, id, rfl, ?_⟩
    first | exact List.forall_mem_nil _ | exact List.forall_mem_singleton.mpr rfl

/-! ### The script, step by step -/

variable {st : State P}

theorem total_kind_move {f : Proc P → ℤ} (hi : st.threads[i]? = some t)
    (hf : f r.thread.proc = f t.proc) :
    total (fun t => f t.proc) (st.move i r).threads =
      total (fun t => f t.proc) st.threads + total (fun t => f t.proc) r.launched := by
  have := Pool.total_set (fun t : Thread P => f t.proc) hi r.thread
  dsimp only [move, Goroutines.Config.move]
  rw [Pool.total_append]
  omega

/-- A kind of events that only `Start` and `Stop` report is not seen in a quiet step. -/
theorem countP_of_quiet {evs : List (Event P)} {p : Event P → Bool}
    (hp : ∀ e, p e = true → e.isLifecycle = true) (h : ∀ e ∈ evs, e.isLifecycle = false) :
    evs.countP p = 0 := by
  refine List.countP_eq_zero.mpr fun e he hpe => ?_
  have := (h e he).symm.trans (hp e hpe)
  cases this

theorem isLifecycle_of (e : Event P) : (e.isStarted = true → e.isLifecycle = true) ∧
    (e.isStopReturned = true → e.isLifecycle = true) ∧
    (e.isReleased = true → e.isLifecycle = true) := by
  unfold isStarted isStopReturned isReleased
  refine ⟨?_, ?_, ?_⟩ <;> split <;> first | exact fun _ => rfl | exact fun h => by cases h

/-- A quiet step of a goroutine leaves the view alone. -/
theorem view_move_of_quiet (hi : st.threads[i]? = some t)
    (hq : Quiet st.shared r.shared t.proc r.thread.proc r.launched r.events) :
    (st.move i r).view = st.view := by
  have hc := countP_of_quiet (isLifecycle_of · |>.1) hq.events
  have hd := countP_of_quiet (isLifecycle_of · |>.2.1) hq.events
  have he := countP_of_quiet (isLifecycle_of · |>.2.2) hq.events
  unfold view
  rw [total_kind_move hi hq.submission, total_kind_move hi hq.reinjection, count_move,
    count_move, count_move, hc, hd, he, hq.launched]
  ext <;> simp [Goroutines.Config.move, hq.lifecycle, hq.everReady, hq.stopping, hq.outboundClosed,
    hq.callbackClosed]

section

variable {a b : ℤ} {c d e : ℕ} {pc : LifecyclePc} {r : Result P LifecyclePc}

/-- The view after a step of `Start` or `Stop`. -/
def Result.view (r : Result P LifecyclePc) (a b : ℤ) (c d e : ℕ) : View :=
  r.shared.view (a + total isSubmission r.launched) (b + total isReinjection r.launched)
    (c + r.events.countP isStarted) (d + r.events.countP isStopReturned)
    (e + r.events.countP isReleased)

/-- One step of `Start` or `Stop` follows the script, and its last step leaves the view in order. -/
theorem LifecycleMoves.held (h : LifecycleMoves m s ch pc r)
    (hv : (s.view a b c d e).Held s.workers pc)
    (hpc : holdsLifecycleMu (Proc.lifecycle pc : Proc P) = 1) :
    (r.view a b c d e).Held r.shared.workers r.pc ∧
      (holdsLifecycleMu (Proc.lifecycle r.pc : Proc P) ≠ 1 → (r.view a b c d e).Free) := by
  cases h
  case startLock => cases hpc
  case stopLock => cases hpc
  case stop hl =>
    obtain ⟨hlaunched, hv⟩ := hv
    refine ⟨?_, by simp⟩
    cases hlc : s.lifecycle <;>
      simp_all [Result.view, View.Held, View.Launched, View.Open, Shared.view]
  case unlock ret l hmu =>
    refine ⟨trivial, fun _ => ?_⟩
    rcases ret with ⟨_ | err⟩ | _ <;> simpa [Result.view, View.Held, View.leave, Shared.view] using hv
  all_goals
    simp_all [Result.view, View.Held, View.Free, View.leave, View.Launched, View.Open, Shared.view,
      Result.crash]

end

/-- The view after a step of the goroutine that is inside `Start` or `Stop`. -/
theorem view_move_lifecycle {r : Result P LifecyclePc}
    (hi : st.threads[i]? = some ⟨none, .lifecycle pc⟩) :
    (st.move i (r.lift .lifecycle)).view =
      r.view (total (fun t => isSubmission t.proc) st.threads)
        (total (fun t => isReinjection t.proc) st.threads) (st.count isStarted)
        (st.count isStopReturned) (st.count isReleased) := by
  unfold view Result.view
  rw [total_kind_move hi rfl, total_kind_move hi rfl, count_move, count_move, count_move,
    Result.lift_launched, Pool.total_map, Pool.total_map]
  rfl

variable {v : View}

theorem View.Held.mono {w w' : ℕ} (hw : w = 0 → w' = 0) (h : v.Held w pc) :
    v.Held w' pc := by
  cases pc <;> simp only [View.Held] at h ⊢ <;> tauto

/-- **The script is followed** in every reachable state. -/
theorem life (hr : m.Reaches st) : st.Life := by
  refine (lifecycleMuLedger.lock m (by simp [locks])).invariant rfl (F := (view · |>.Free))
    (H := fun st _ t => LifeHeld st t) ?_ ?_ ?_ ?_ hr
  · simp [view, start, Shared.view, View.Free, View.Launched, View.Open, count]
  · intro st c _
    have hview : view { st with threads := st.threads ++ [(machine m).call c] } = view st := by
      cases c <;> simp [view, machine, Call.thread, count]
    simp only [LifeHeld, hview]
    exact ⟨id, fun _ _ => id⟩
  · exact fun _ _ _ _ _ => ⟨id, fun _ _ => id⟩
  · rintro (st : State P) i ch t r ⟨-, -, -, hi, hstep⟩
    rcases quiet_or_lifecycle hstep with hq | ⟨pc, r, rfl, hr, rfl⟩
    · -- somebody else moves, or `fatal` does: the view and the holder stay
      have hview := view_move_of_quiet hi hq
      have hiff : lifecycleMuLedger.Holds r.thread ↔ lifecycleMuLedger.Holds t := by
        simp only [Ledger.Holds, lifecycleMuLedger, hq.holds]
      have hheld : ∀ u, st.LifeHeld u → (st.move i r).LifeHeld u := by
        intro u hu pc hp
        rw [hview]
        exact (hu pc hp).mono hq.workers
      refine ⟨fun _ _ h pc hp => hheld t h pc (hq.inside pc hp), fun h₁ h₂ => absurd (hiff.mpr h₁) h₂,
        fun h₁ h₂ => absurd (hiff.mp h₂) h₁, fun _ _ => ⟨?_, fun _ u _ _ => hheld u⟩⟩
      rw [hview]
      exact id
    · -- `Start` or `Stop` itself moves
      have hview := view_move_lifecycle (r := r) hi
      refine ⟨fun h₁ _ h => ?_, fun h₁ h₂ h => ?_, fun h₁ h₂ h => ?_, fun h₁ h₂ => ?_⟩
      · rintro _ ⟨⟩
        rw [hview]
        exact (hr.held (h pc rfl) h₁).1
      · rw [hview]
        exact (hr.held (h pc rfl) h₁).2 h₂
      · rintro _ ⟨⟩
        rw [hview]
        cases hr <;> first | exact absurd rfl h₁ | simpa [Result.view, View.Held, Shared.view, view] using h
      · cases hr <;> first | exact absurd rfl h₁ | exact absurd rfl h₂

/-! ### What the others need to know -/

/-- What the script says in every reachable state, whoever is inside. -/
structure View.Sound (v : View) : Prop where
  stopping_of_outboundClosed : v.outboundClosed = true → v.stopping = true
  stopping_of_callbackClosed : v.callbackClosed = true → v.stopping = true
  closed_of_stopReturned : 0 < v.stopReturned → v.outboundClosed = true ∧ v.callbackClosed = true
  reinjections : v.reinjections = v.submissions
  submissions_le_one : v.submissions ≤ 1
  launched_of_everReady : v.everReady = true → v.submissions = 1
  started_le : v.started ≤ v.everReady.toNat

theorem View.Launched.sound (h : v.Launched) (ho : v.outboundClosed = true → v.stopping = true)
    (hc : v.callbackClosed = true → v.stopping = true)
    (hs : 0 < v.stopReturned → v.outboundClosed = true ∧ v.callbackClosed = true) : v.Sound := by
  obtain ⟨h₁, h₂, h₃⟩ := h
  refine ⟨ho, hc, hs, h₁, by omega, fun he => ?_, h₃.le⟩
  rcases h₂ with ⟨-, h₂⟩ | h₂
  · rw [h₂] at he
    cases he
  · exact h₂

theorem View.Open.sound (hl : v.Launched) (h : v.Open) : v.Sound := by
  obtain ⟨-, h₂, h₃, h₄, -⟩ := h
  exact hl.sound (by simp [h₂]) (by simp [h₃]) (by simp [h₄])

theorem View.Free.sound (h : v.Free) : v.Sound := by
  obtain ⟨hl, h⟩ := h
  cases hlc : v.lifecycle <;> simp only [hlc] at h
  case new => exact h.2.2.sound hl
  case running => exact h.2.sound hl
  case stopped => exact hl.sound (fun _ => h.1) (fun _ => h.1) (fun _ => h.2)

theorem View.Held.sound {w : ℕ} (h : v.Held w pc)
    (hpc : holdsLifecycleMu (Proc.lifecycle pc : Proc P) = 1) : v.Sound := by
  cases pc <;> simp only [View.Held] at h
  case startLock => simp at hpc
  case stopLock => simp at hpc
  case done => simp at hpc
  case startCheck => exact h.sound
  case stopCheck => exact h.sound
  case listen => exact h.2.2.2.sound h.1
  case register => exact h.2.2.2.sound h.1
  case retry => exact h.2.2.2.sound h.1
  case becomeReady => exact h.2.2.2.sound h.1
  case teardown ret pc =>
    obtain ⟨-, hl, hs, -, hst, hout, hcb, -⟩ := h
    refine hl.sound ?_ ?_ (by simp [hs]) <;> rw [hst]
    · rw [hout]
      cases pc <;> simp
    · rw [hcb]
      cases pc <;> simp
  case unlock ret l =>
    have hs := h.sound
    refine ⟨hs.stopping_of_outboundClosed, hs.stopping_of_callbackClosed, fun hr => ?_,
      hs.reinjections, hs.submissions_le_one, hs.launched_of_everReady, ?_⟩
    · refine hs.closed_of_stopReturned ?_
      simp only [View.leave]
      omega
    · have := hs.started_le
      simp only [View.leave] at this
      omega

theorem view_sound (hr : m.Reaches st) : st.view.Sound := by
  rcases (life hr).free_or_held with h | ⟨i, t, -, ht, h⟩
  · exact h.sound
  · cases hp : t.proc <;> simp [Ledger.Holds, lifecycleMuLedger, hp] at ht
    rename_i pc
    exact View.Held.sound (P := P) (h pc hp) (by simpa using ht)

theorem LifecycleMoves.ready {r : Result P LifecyclePc} (h : LifecycleMoves m s ch pc r) :
    r.shared.everReady = true ∨
      (r.shared.ready = true → s.ready = true) ∧ r.shared.everReady = s.everReady := by
  cases h
  case becomeReady => exact .inl rfl
  case flags => exact .inr ⟨nofun, rfl⟩
  all_goals exact .inr ⟨id, rfl⟩

/-- The service is ready only after a `Start` has made it so. -/
theorem everReady_of_ready (hr : m.Reaches st) :
    st.shared.ready = true → st.shared.everReady = true := by
  refine Machine.invariant (by simp [start]) (fun st c _ ih => ih) (fun _ _ _ _ ih _ => ih) ?_ hr
  rintro st i ch t r ⟨-, -, -, -, hstep⟩ ih hready
  rcases quiet_or_lifecycle hstep with hq | ⟨pc, r', -, hr', rfl⟩
  · exact hq.everReady.trans (ih (hq.ready hready))
  · rcases hr'.ready with he | ⟨h₁, h₂⟩
    · exact he
    · exact h₂.trans (ih (h₁ hready))

end CometBFT.Mediation
