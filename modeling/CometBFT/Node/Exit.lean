import CometBFT.Node.Services

/-!
# How the process ends

`waitForControllerMediationNode` returns when a signal has made it stop the node, or when the node
has been stopped by somebody else. What it returns is the node's fatal error. On the quit channel it
has waited for `OnStop`; on the signal it has only if its own call of `Stop` did the work. If another
goroutine has set the `stopped` flag first, the command returns while that goroutine is still inside
`OnStop`, and the process ends under it.

## Main results

* `never_nil_after_fatal` — once a fatal error is recorded, the command does not return nil
* `exit_after_cleanup` — in runs where the signal does not meet a shutdown in progress, the command
  returns after `OnStop`
* `exit_during_cleanup` — the run in which it does not
-/

namespace CometBFT.Node

open Goroutines List Proc

variable {enabled : Bool} {s : Shared} {ch : Choice}
  {ok : State → Action Choice Call World → Prop} {st : State}

/-! ### The quit channel -/

theorem stopStep_quit {pc : StopPc} {r : Result StopPc} (h : stopStep s pc = some r) :
    (s.node.quit = true → r.shared.node.quit = true) ∧
    (r.shared.node.quit = true → s.node.quit = true ∨ pc = .quit) ∧
    (r.pc = .quit → r.events = [.onStopReturned]) := by
  unfold stopStep at h
  split at h
  all_goals
    repeat' split at h
    all_goals cases h
    all_goals simp_all [Shared.modifyPeer, Shared.removePeer]

variable {o : Effect Shared Proc Event} {p : Proc}

/-- `quit` is closed by a `Stop` that has come to this point, and stays closed. -/
theorem Proc.step_quit (h : p.step enabled s ch = some o) :
    (s.node.quit = true → o.shared.node.quit = true) ∧
    (o.shared.node.quit = true → s.node.quit = true ∨ p.stopping = some .quit) := by
  cases step_service h with
  | start hp hr hs hp' =>
    rw [hs, (startStep_frame hr).2.2.1]
    exact ⟨id, .inl⟩
  | stop hp hr hs hp' hk hevs =>
    obtain ⟨hstay, hclose, -⟩ := stopStep_quit hr
    rw [hs, hp]
    exact ⟨hstay, fun hq => (hclose hq).imp_right (congrArg some)⟩
  | idle hs hp hp' hk hne =>
    rw [hs.node]
    exact ⟨id, .inl⟩

theorem afterStart_stopping (command : Bool) (pc : StartPc) :
    (afterStart enabled command pc).stopping = none := by
  unfold afterStart
  split
  · split <;> rfl
  · rfl

/-- A `Stop` that is about to close `quit` has returned from `OnStop`. -/
theorem onStop_returned (hr : (machine enabled).Runs ok {} st) :
    ∀ i p, st.threads[i]? = some p → p.stopping = some .quit →
      (i, .onStopReturned) ∈ st.trace := by
  intro i p hi
  refine Machine.threads_invariant ?_ (fun _ _ _ _ _ h => h) (fun _ _ _ _ _ _ h _ => h) ?_ ?_ ?_ hr hi
  · intro st c _ hp
    cases c <;> cases hp
  · rintro st i ch p o ⟨-, -, -, -, ho⟩ _ hp
    refine mem_append_right _ (mem_map.mpr ⟨_, ?_, rfl⟩)
    cases step_service ho with
    | start _ _ _ hp' =>
      rw [hp', afterStart_stopping] at hp
      cases hp
    | stop _ hr _ hp' _ hevs =>
      rcases hp' with hp' | ⟨-, hp'⟩ <;> rw [hp'] at hp
      · rw [hevs, (stopStep_quit hr).2.2 (Option.some.inj hp)]
        exact mem_singleton_self _
      · cases hp
    | idle _ _ hp' _ _ =>
      rcases hp' with (hp' | ⟨-, hp'⟩) | hp' <;> rw [hp'] at hp <;> cases hp
  · exact fun st i ch p o j u _ _ _ ih hp => mem_append_left _ (ih hp)
  · rintro st i ch p o j u ⟨-, -, -, -, ho⟩ _ hu hp
    rcases step_launched ho u hu with rfl | rfl <;> cases hp

/-- **Once `quit` is closed, `OnStop` has returned.** -/
theorem onStop_returned_of_quit (hr : (machine enabled).Runs ok {} st) :
    st.shared.node.quit = true → ∃ j, (j, .onStopReturned) ∈ st.trace := by
  refine Machine.invariant (fun hq => by cases hq) (fun _ _ _ ih => ih)
    (fun _ _ _ _ ih _ => ih) ?_ hr
  rintro st i ch p o ⟨hr, -, -, hi, ho⟩ ih hq
  rcases (step_quit ho).2 hq with hq | hp
  · obtain ⟨j, hj⟩ := ih hq
    exact ⟨j, mem_append_left _ hj⟩
  · exact ⟨i, mem_append_left _ (onStop_returned hr i p hi hp)⟩

/-! ### What the command returns -/

def Event.isFatalRecorded : Event → Bool
  | .fatalRecorded _ => true
  | _ => false

/-- `waitForControllerMediationNode` returned nil. -/
def Event.isNilReturn : Event → Bool
  | .waitReturned none => true
  | _ => false

/-- What a step has to do with the recorded error: it stays, is there once a fatal error has been
reported, and is what a return of nil has not found. -/
structure FatalKept (s s' : Shared) (evs : List Event) : Prop where
  stays : s.controllerFatal.isSome = true → s'.controllerFatal.isSome = true
  recorded : ∀ e ∈ evs, e.isFatalRecorded = true → s'.controllerFatal.isSome = true
  nil : ∀ e ∈ evs, e.isNilReturn = true → s.controllerFatal = none
  length : evs.length ≤ 1

/-- Only `recordControllerFatal` changes the error. -/
theorem Proc.step_controllerFatal (h : p.step enabled s ch = some o) :
    o.shared.controllerFatal = s.controllerFatal ∨ o.shared.controllerFatal.isSome = true := by
  cases stepped h with
  | recordFatal => exact .inr rfl
  | start hr => exact .inl (startStep_frame hr).2.2.2.1
  | stop hr => exact .inl (stopStep_frame hr).2.2.1
  | fatalStop hr =>
    rcases fatalStep_cases hr with ⟨pc', r', rfl, hr', rfl⟩ | ⟨-, hs, -⟩
    · exact .inl (stopStep_frame hr').2.2.1
    · exact .inl (congrArg Shared.controllerFatal hs)
  | wait hr =>
    rcases waitStep_cases hr with ⟨pc', r', rfl, hr', rfl⟩ | ⟨-, ⟨b, hs⟩, -⟩
    · exact .inl (stopStep_frame hr').2.2.1
    · exact .inl (by rw [Result.toEffect, hs])
  | connect hr => exact .inl (connectStep_idle hr).2.2.2
  | send hr => exact .inl (congrArg Shared.controllerFatal (sendStep_quiet hr).shared)
  | receive hr => exact .inl (congrArg Shared.controllerFatal (receiveStep_quiet hr).shared)

theorem Proc.step_fatal (h : p.step enabled s ch = some o) : FatalKept s o.shared o.events := by
  refine ⟨fun hs => ?_, fun e he hrec => ?_, fun e he hnil => ?_, ?_⟩
  · rcases step_controllerFatal h with heq | hsome
    · rwa [heq]
    · exact hsome
  · have hrep := reportedBy_of_mem h he
    cases e <;> cases hrec
    obtain rfl : p = _ := hrep
    cases h
    rfl
  · have hrep := reportedBy_of_mem h he
    cases e <;> try cases hnil
    rename_i x
    obtain ⟨pc, rfl, hp⟩ := hrep
    obtain ⟨r, hr, rfl⟩ := Option.map_eq_some_iff.mp h
    rcases waitStep_cases hr with ⟨pc', r', rfl, -, -⟩ | ⟨-, -, -, hevs | ⟨x', hevs, hx⟩, -⟩
    · cases hp
    · rw [Result.toEffect, hevs] at he
      cases he
    · rw [Result.toEffect, hevs] at he
      cases mem_singleton.mp he
      cases x with
      | none => exact hx rfl
      | some e => cases hnil
  · rcases step_reports h with hevs | ⟨e, hevs, -⟩
    · rw [hevs]
      exact Nat.zero_le _
    · rw [hevs]
      exact le_rfl

/-- **Once a fatal error is recorded, the command does not return nil.** -/
theorem never_nil_after_fatal (hr : (machine enabled).Runs ok {} st) :
    NeverAfter (fun e : ℕ × Event => e.2.isFatalRecorded = true) (fun e => e.2.isNilReturn = true)
      st.trace := by
  suffices hboth :
      ((∃ e ∈ st.trace, e.2.isFatalRecorded = true) → st.shared.controllerFatal.isSome = true) ∧
      NeverAfter (fun e : ℕ × Event => e.2.isFatalRecorded = true)
        (fun e => e.2.isNilReturn = true) st.trace from hboth.2
  refine Machine.invariant ?_ (fun _ _ _ ih => ih) (fun _ _ _ _ ih _ => ih) ?_ hr
  · refine ⟨?_, List.Pairwise.nil⟩
    rintro ⟨e, he, -⟩
    cases he
  · rintro st i ch p o ⟨-, -, -, hi, ho⟩ ih
    have hk := step_fatal ho
    constructor
    · rintro ⟨e, he, hrec⟩
      rcases mem_append.mp he with he | he
      · exact hk.stays (ih.1 ⟨e, he, hrec⟩)
      · obtain ⟨e', he', rfl⟩ := mem_map.mp he
        exact hk.recorded e' he' hrec
    · refine ih.2.append (by simpa using hk.length) fun hrec e he hnil => ?_
      obtain ⟨e', he', rfl⟩ := mem_map.mp he
      have := ih.1 hrec
      rw [hk.nil e' he' hnil] at this
      cases this

/-! ### When the command returns -/

/-- The signal branch does not meet a shutdown in progress: whenever the command loads `stopped`
or tries to set it, the flag is clear or `quit` is closed. -/
def StopsAlone (st : State) : Action Choice Call World → Prop
  | .run i _ =>
    (st.threads[i]? = some (.wait .loadStopped) ∨ st.threads[i]? = some (.wait (.stop .cas))) →
      st.shared.node.stopped = false ∨ st.shared.node.quit = true
  | _ => True

instance (st : State) : (a : Action Choice Call World) → Decidable (StopsAlone st a)
  | .run _ _ => inferInstanceAs (Decidable (_ → _))
  | .call _ | .world _ => .isTrue trivial

/-- What is true at each program counter of the command: past its own `Stop`, or past the quit
channel, `quit` is closed. -/
def WaitPc.Sound (s : Shared) : WaitPc → Prop
  | .select | .loadStarted | .loadStopped => True
  | .stop pc => pc ≠ .revert
  | _ => s.node.quit = true

theorem stopStep_sound {pc : StopPc} {r : Result StopPc} (h : stopStep s pc = some r)
    (hpc : pc ≠ .revert) (hstarted : s.node.started = true)
    (halone : pc = .cas → s.node.stopped = false ∨ s.node.quit = true) :
    (WaitPc.afterStop r.pc).Sound r.shared := by
  unfold stopStep at h
  split at h
  all_goals
    repeat' split at h
    all_goals cases h
    all_goals simp_all [WaitPc.afterStop, WaitPc.Sound]

theorem waitStep_sound {pc : WaitPc} {r : Result WaitPc} (h : waitStep s ch pc = some r)
    (hpc : pc.Sound s) (hstarted : s.node.started = true)
    (halone : pc = .loadStopped ∨ pc = .stop .cas →
      s.node.stopped = false ∨ s.node.quit = true) : r.pc.Sound r.shared := by
  cases pc <;> dsimp only [waitStep] at h
  case stop pc =>
    obtain ⟨r', hr', rfl⟩ := Option.map_eq_some_iff.mp h
    exact stopStep_sound hr' hpc hstarted fun h => halone (.inr (h ▸ rfl))
  case loadStopped =>
    cases h
    rw [Result.to_pc]
    split
    · rename_i hs
      rcases halone (.inl rfl) with h | h
      · rw [hs] at h
        cases h
      · exact h
    · exact nofun
  all_goals
    repeat' split at h
    all_goals cases h
    all_goals simp_all [WaitPc.Sound]

theorem WaitPc.Sound.mono {s' : Shared} {pc : WaitPc} (h : pc.Sound s)
    (hq : s.node.quit = true → s'.node.quit = true) : pc.Sound s' := by
  cases pc <;> first | exact h | exact hq h

theorem afterStart_eq_wait {command : Bool} {pc : StartPc} {w : WaitPc}
    (h : afterStart enabled command pc = .wait w) : w = .select := by
  unfold afterStart at h
  split at h
  · split at h <;> cases h
    rfl
  · cases h

/-- **The command is sound** in runs where it stops alone. -/
theorem wait_sound (hr : (machine enabled).Runs StopsAlone {} st) :
    ∀ (i : ℕ) p, st.threads[i]? = some p → ∀ pc, p = .wait pc → pc.Sound st.shared := by
  intro i p hi
  refine Machine.threads_invariant ?_ (fun _ _ _ _ _ h => h) ?_ ?_ ?_ ?_ hr hi
  · intro st c _ pc hp
    cases c <;> cases hp
  · exact fun _ _ _ _ _ _ ih _ pc hp => (ih pc hp).mono id
  · rintro st i ch p o ⟨hr, -, hok, hi, ho⟩ ih pc hp
    cases stepped ho with
    | start hr' =>
      rw [afterStart_eq_wait hp]
      trivial
    | @wait pc' r hr' =>
      cases hp
      exact waitStep_sound hr' (ih i _ hi _ rfl) (started_of_owns hr hi rfl)
        fun h => hok (h.imp (fun h => by rw [hi, h]) fun h => by rw [hi, h])
    | _ => cases hp
  · exact fun st i ch p o j u h _ _ ih pc hp => (ih pc hp).mono (step_quit h.step).1
  · rintro st i ch p o j u ⟨-, -, -, -, ho⟩ _ hu pc hp
    rcases step_launched ho u hu with rfl | rfl <;> cases hp

/-- The command returns from where its soundness says that `quit` is closed. -/
theorem Proc.step_waitReturned (h : p.step enabled s ch = some o) {x : Option ExitError}
    (he : .waitReturned x ∈ o.events) :
    ∃ pc, p = .wait pc ∧ (pc.Sound s → s.node.quit = true) := by
  obtain ⟨pc, rfl, hstop⟩ := reportedBy_of_mem h he
  refine ⟨pc, rfl, ?_⟩
  obtain ⟨r, hr, rfl⟩ := Option.map_eq_some_iff.mp h
  cases pc <;> dsimp only [waitStep] at hr
  case stop => cases hstop
  all_goals
    repeat' split at hr
    all_goals cases hr
    all_goals first | exact id | cases he

/-- **The process ends after orderly cleanup.** In every run where the signal does not meet a
shutdown in progress, the command has returned only if `quit` is closed and `OnStop` has returned;
and once a fatal error is recorded it does not return nil. -/
theorem exit_after_cleanup (enabled : Bool) {st : State}
    (hr : (machine enabled).Runs StopsAlone {} st) :
    (∀ i x, (i, Event.waitReturned x) ∈ st.trace →
      st.shared.node.quit = true ∧ ∃ j, (j, .onStopReturned) ∈ st.trace) ∧
    NeverAfter (fun e : ℕ × Event => e.2.isFatalRecorded = true) (fun e => e.2.isNilReturn = true)
      st.trace := by
  refine ⟨fun i x he => ?_, never_nil_after_fatal hr⟩
  have hquit : st.shared.node.quit = true := by
    revert i x he
    refine Machine.invariant ?_ (fun _ _ _ ih => ih) ?_ ?_ hr
    · intro i x he
      cases he
    · exact fun _ _ _ _ ih _ => ih
    · rintro st i ch p o ⟨hr, -, -, hi, ho⟩ ih j x he
      refine (step_quit ho).1 ?_
      rcases mem_append.mp he with he | he
      · exact ih j x he
      · obtain ⟨e, he', heq⟩ := mem_map.mp he
        cases heq
        obtain ⟨pc, rfl, hq⟩ := step_waitReturned ho he'
        exact hq (wait_sound hr _ _ hi pc rfl)
  exact ⟨hquit, onStop_returned_of_quit hr hquit⟩

/-! ### A signal that meets a shutdown -/

/-- A signal arrives and the command stops the node. -/
def signalRun : List (Action Choice Call World) :=
  [.world .signal, .run 0 .signal] ++ replicate 19 (go 0)

theorem exit_after_cleanup_sample :
    let st := (execWhere (machine true).next StopsAlone (start {}) (startRun ++ signalRun)).getD
      (start {})
    st.trace = [(0, .onStopReturned), (0, .waitReturned none)] ∧
    ((∀ i x, (i, Event.waitReturned x) ∈ st.trace →
      st.shared.node.quit = true ∧ ∃ j, (j, .onStopReturned) ∈ st.trace) ∧
    NeverAfter (fun e : ℕ × Event => e.2.isFatalRecorded = true) (fun e => e.2.isNilReturn = true)
      st.trace) := by
  exact ⟨by decide, exit_after_cleanup true (steps_execWhere (by decide))⟩

/-- A fatal error is recorded, and the goroutine that stops the node for it sets `stopped`; then
a signal arrives. -/
def fatalRun : List (Action Choice Call World) :=
  [.call (.fatal 7), go 2, go 3, go 3, go 3, .world .signal, .run 0 .signal, go 0, go 0, go 0]

/-- The command returns the fatal error while `OnStop` has not even begun. -/
theorem exit_during_cleanup :
    let st := ((exec (machine true).next (start {}) (startRun ++ fatalRun)).getD (start {}))
    st.trace = [(2, .fatalRecorded 7), (0, .waitReturned (some (.fatal 7)))] ∧
    st.shared.node.quit = false ∧ st.threads[3]? = some (.fatalStop (.stop .checkStarted)) := by
  decide

end CometBFT.Node
