import CometBFT.Node.Machine

/-!
# The flags of the node and of its Switch

The Node's `started` flag belongs to the one caller of `Start` that won the compare-and-swap, and
stays set once that call has succeeded. The flags of the Switch are only touched by a goroutine that
holds `controllerLifecycle`, so for the Switch `Start` and `Stop` do not race, and a Switch that has
been started and stopped stays so.

## Main results

* `Proc.stepped`, `Proc.step_service` — inversion, as a whole and with regard to the services
* `Proc.step_reports` — which goroutine reports which events
* `started_of_owns` — a caller whose `Start` has succeeded finds the Node started
* `switch_consistent`, `halted_stays` — the flags of the Switch
-/

namespace CometBFT.Node

open Goroutines Option Proc

open Pool (total)

variable {enabled : Bool} {s : Shared} {ch : Choice}

/-! ### Inversion -/

/-- What a step of a goroutine can be. -/
inductive Stepped (enabled : Bool) (s : Shared) (ch : Choice) :
    Proc → Effect Shared Proc Event → Prop where
  | start {command : Bool} {pc : StartPc} {r : Result StartPc}
      (h : startStep enabled s ch pc = some r) :
      Stepped enabled s ch (.start command pc) (r.toEffect (afterStart enabled command))
  | stop {pc : StopPc} {r : Result StopPc} (h : stopStep s pc = some r) :
      Stepped enabled s ch (.stop pc) (r.toEffect .stop)
  | recordFatal {e : ℕ} :
      Stepped enabled s ch (.recordFatal e)
        ⟨{ s with controllerFatal := some (s.controllerFatal.getD e) }, .recorded,
          [.fatalStop .loadStarted], [.fatalRecorded e]⟩
  | fatalStop {pc : FatalPc} {r : Result FatalPc} (h : fatalStep s pc = some r) :
      Stepped enabled s ch (.fatalStop pc) (r.toEffect .fatalStop)
  | wait {pc : WaitPc} {r : Result WaitPc} (h : waitStep s ch pc = some r) :
      Stepped enabled s ch (.wait pc) (r.toEffect .wait)
  | connect {inbound : Bool} {pc : ConnectPc} {r : Result ConnectPc}
      (h : connectStep inbound s ch pc = some r) :
      Stepped enabled s ch (.connect inbound pc) (r.toEffect (.connect inbound))
  | send {p : ℕ} {channelID : UInt8} {type : Mediation.MsgType} {pc : SendPc} {r : Result SendPc}
      (h : sendStep s ch p channelID type pc = some r) :
      Stepped enabled s ch (.send p channelID type pc) (r.toEffect (.send p channelID type))
  | receive {p : ℕ} {channelID : UInt8} {pc : ReceivePc} {r : Result ReceivePc}
      (h : receiveStep s ch p channelID pc = some r) :
      Stepped enabled s ch (.receive p channelID pc) (r.toEffect (.receive p channelID))

variable {p : Proc} {o : Effect Shared Proc Event}

theorem Proc.stepped (h : p.step enabled s ch = some o) : Stepped enabled s ch p o := by
  cases p
  case recordFatal e =>
    obtain rfl := some.inj h
    exact .recordFatal
  case recorded => cases h
  all_goals obtain ⟨r, hr, rfl⟩ := map_eq_some_iff.mp h
  case start => exact .start hr
  case stop => exact .stop hr
  case fatalStop => exact .fatalStop hr
  case wait => exact .wait hr
  case connect => exact .connect hr
  case send => exact .send hr
  case receive => exact .receive hr

/-! ### Calls of `Stop` inside other functions -/

/-- Where the goroutine stands inside `Node.Stop`, if it is inside. -/
def Proc.stopping : Proc → Option StopPc
  | .stop pc | .fatalStop (.stop pc) | .wait (.stop pc) => some pc
  | _ => none

/-- The kinds of goroutines that the flags of the Node tell apart. -/
inductive Kind where
  | start | wait | other
  deriving DecidableEq

def Proc.kind : Proc → Kind
  | .start _ _ => .start
  | .wait _ => .wait
  | _ => .other

/-- A step that leaves the services alone. -/
structure Idle (s s' : Shared) : Prop where
  node : s'.node = s.node
  sw : s'.sw = s.sw
  controllerLifecycle : s'.controllerLifecycle = s.controllerLifecycle
  mediation : s'.mediation = s.mediation
  controllerMediation : s'.controllerMediation = s.controllerMediation

theorem Idle.refl (s : Shared) : Idle s s := ⟨rfl, rfl, rfl, rfl, rfl⟩

theorem connectStep_idle {inbound : Bool} {pc : ConnectPc} {r : Result ConnectPc}
    (h : connectStep inbound s ch pc = some r) :
    Idle s r.shared ∧ r.launched = [] ∧ r.events = [] ∧
      r.shared.controllerFatal = s.controllerFatal := by
  cases pc <;> dsimp only [connectStep] at h
  all_goals
    repeat' split at h
    all_goals cases h
    all_goals exact ⟨⟨rfl, rfl, rfl, rfl, rfl⟩, rfl, rfl, rfl⟩

/-- The goroutine that reports an event. -/
def Event.ReportedBy (p : Proc) : Event → Prop
  | .fatalRecorded e => p = .recordFatal e
  | .onStopReturned => p.stopping = some .unlock
  | .waitReturned _ => ∃ pc, p = .wait pc ∧ p.stopping = none
  | .submitted q c t | .mconnSend q c t _ => p = .send q c t .route
  | .directInboundRejected q c | .received q c _ => p = .receive q c .onReceive

/-- A step that does not change the state, and reports no more than one event. -/
structure Quiet {κ : Type*} (s : Shared) (p : Proc) (r : Result κ) : Prop where
  shared : r.shared = s
  launched : r.launched = []
  reports : r.events = [] ∨ ∃ e, r.events = [e] ∧ e.ReportedBy p

theorem sendStep_quiet {p : ℕ} {channelID : UInt8} {type : Mediation.MsgType} {pc : SendPc}
    {r : Result SendPc} (h : sendStep s ch p channelID type pc = some r) :
    Quiet s (.send p channelID type pc) r := by
  cases pc <;> dsimp only [sendStep] at h
  case route =>
    obtain ⟨peer, -, h⟩ := bind_eq_some_iff.mp h
    repeat' split at h
    all_goals cases h
    all_goals first | exact ⟨rfl, rfl, .inl rfl⟩ | exact ⟨rfl, rfl, .inr ⟨_, rfl, rfl⟩⟩
  case done => cases h
  all_goals
    obtain ⟨peer, -, rfl⟩ := map_eq_some_iff.mp h
    exact ⟨rfl, rfl, .inl rfl⟩

theorem receiveStep_quiet {p : ℕ} {channelID : UInt8} {pc : ReceivePc} {r : Result ReceivePc}
    (h : receiveStep s ch p channelID pc = some r) : Quiet s (.receive p channelID pc) r := by
  cases pc <;> dsimp only [receiveStep] at h
  case done => cases h
  all_goals
    obtain ⟨peer, -, h⟩ := bind_eq_some_iff.mp h
    repeat' split at h
    all_goals cases h
    all_goals first | exact ⟨rfl, rfl, .inl rfl⟩ | exact ⟨rfl, rfl, .inr ⟨_, rfl, rfl⟩⟩

/-- The goroutine stands inside `Stop` at `pc`, or has left it if `pc` says so. -/
def Proc.AtStop (p : Proc) (pc : StopPc) : Prop :=
  p.stopping = some pc ∨ (∃ e, pc = .returned e) ∧ p.stopping = none

/-- What a goroutine does to the services: a step of `Start`, a step of `Stop`, or nothing. -/
inductive ServiceStep (enabled : Bool) (s : Shared) (ch : Choice) (p : Proc) (s' : Shared)
    (p' : Proc) (evs : List Event) : Prop where
  | start {command : Bool} {pc : StartPc} {r : Result StartPc} (hp : p = .start command pc)
      (h : startStep enabled s ch pc = some r) (hs : s' = r.shared)
      (hp' : p' = afterStart enabled command r.pc)
  | stop {pc : StopPc} {r : Result StopPc} (hp : p.stopping = some pc) (h : stopStep s pc = some r)
      (hs : s' = r.shared) (hp' : p'.AtStop r.pc) (hkind : p.kind = p'.kind)
      (hevs : evs = r.events)
  | idle (hs : Idle s s') (hstop : p.stopping = none) (hstop' : p'.AtStop .cas ∨ p'.stopping = none)
      (hkind : p.kind = p'.kind) (hstart : p.kind ≠ .start)

theorem FatalPc.atStop (pc : StopPc) : (fatalStop (.afterStop pc)).AtStop pc := by
  unfold FatalPc.afterStop
  split
  · exact .inr ⟨⟨_, rfl⟩, rfl⟩
  · exact .inl rfl

theorem WaitPc.atStop (pc : StopPc) : (wait (.afterStop pc)).AtStop pc := by
  unfold WaitPc.afterStop
  split
  · exact .inr ⟨⟨_, rfl⟩, rfl⟩
  · exact .inr ⟨⟨_, rfl⟩, rfl⟩
  · exact .inl rfl

/-- The goroutine of `recordControllerFatal` takes a step of `Stop`, or does nothing to the state. -/
theorem fatalStep_cases {pc : FatalPc} {r : Result FatalPc} (h : fatalStep s pc = some r) :
    (∃ pc' r', pc = .stop pc' ∧ stopStep s pc' = some r' ∧ r = r'.map .afterStop) ∨
    (fatalStop pc).stopping = none ∧ r.shared = s ∧ r.launched = [] ∧ r.events = [] ∧
      ((fatalStop r.pc).AtStop .cas ∨ (fatalStop r.pc).stopping = none) := by
  cases pc <;> dsimp only [fatalStep] at h
  case stop pc =>
    obtain ⟨r', hr', rfl⟩ := map_eq_some_iff.mp h
    exact .inl ⟨pc, r', rfl, hr', rfl⟩
  case done => cases h
  all_goals
    cases h
    refine .inr ⟨rfl, rfl, rfl, rfl, ?_⟩
    rw [Result.to_pc]
    split
    all_goals first | exact .inr rfl | exact .inl (.inl rfl)

/-- And so does the command; it may take a signal, and return. -/
theorem waitStep_cases {pc : WaitPc} {r : Result WaitPc} (h : waitStep s ch pc = some r) :
    (∃ pc' r', pc = .stop pc' ∧ stopStep s pc' = some r' ∧ r = r'.map .afterStop) ∨
    (wait pc).stopping = none ∧ (∃ b, r.shared = { s with signals := b }) ∧ r.launched = [] ∧
      (r.events = [] ∨ ∃ x, r.events = [.waitReturned x] ∧ (x = none → s.controllerFatal = none)) ∧
      ((wait r.pc).AtStop .cas ∨ (wait r.pc).stopping = none) := by
  cases pc <;> dsimp only [waitStep] at h
  case stop pc =>
    obtain ⟨r', hr', rfl⟩ := map_eq_some_iff.mp h
    exact .inl ⟨pc, r', rfl, hr', rfl⟩
  case loadStarted | loadStopped | reloadStarted =>
    cases h
    refine .inr ⟨rfl, ⟨_, rfl⟩, rfl, .inl rfl, ?_⟩
    rw [Result.to_pc]
    split
    all_goals first | exact .inr rfl | exact .inl (.inl rfl)
  case fatalError =>
    cases h
    exact .inr ⟨rfl, ⟨_, rfl⟩, rfl, .inr ⟨_, rfl, map_eq_none_iff.mp⟩, .inr rfl⟩
  all_goals
    repeat' split at h
    all_goals cases h
    all_goals
      first
      | exact .inr ⟨rfl, ⟨_, rfl⟩, rfl, .inl rfl, .inr rfl⟩
      | exact .inr ⟨rfl, ⟨_, rfl⟩, rfl, .inr ⟨_, rfl, nofun⟩, .inr rfl⟩

variable {pc : StopPc} {r : Result StopPc}

theorem stopStep_frame (h : stopStep s pc = some r) :
    r.launched = [] ∧ r.shared.node.started = s.node.started ∧
      r.shared.controllerFatal = s.controllerFatal ∧
      (r.events = [] ∨ r.events = [.onStopReturned] ∧ pc = .unlock) := by
  unfold stopStep at h
  split at h
  all_goals
    repeat' split at h
    all_goals cases h
    all_goals first | exact ⟨rfl, rfl, rfl, .inl rfl⟩ | exact ⟨rfl, rfl, rfl, .inr ⟨rfl, rfl⟩⟩

theorem startStep_frame {pc : StartPc} {r : Result StartPc}
    (h : startStep enabled s ch pc = some r) :
    r.events = [] ∧ r.shared.peers = s.peers ∧ r.shared.node.quit = s.node.quit ∧
      r.shared.controllerFatal = s.controllerFatal ∧
      ∀ u ∈ r.launched, u = .connect true .readSink := by
  cases pc <;> dsimp only [startStep] at h
  all_goals
    repeat' split at h
    all_goals cases h
    all_goals exact ⟨rfl, rfl, rfl, rfl, by simp⟩

section

variable (h : p.step enabled s ch = some o)

include h

theorem Proc.step_service : ServiceStep enabled s ch p o.shared o.thread o.events := by
  cases stepped h with
  | start hr => exact .start rfl hr rfl rfl
  | stop hr => exact .stop rfl hr rfl (.inl rfl) rfl rfl
  | recordFatal => exact .idle ⟨rfl, rfl, rfl, rfl, rfl⟩ rfl (.inr rfl) rfl nofun
  | @fatalStop pc r hr =>
    rcases fatalStep_cases hr with ⟨pc', r', rfl, hr', rfl⟩ | ⟨hp, hs, -, -, hp'⟩
    · exact .stop rfl hr' rfl (FatalPc.atStop r'.pc) rfl rfl
    · exact .idle (hs.symm ▸ .refl s) hp hp' rfl nofun
  | @wait pc r hr =>
    rcases waitStep_cases hr with ⟨pc', r', rfl, hr', rfl⟩ | ⟨hp, ⟨b, hs⟩, -, -, hp'⟩
    · exact .stop rfl hr' rfl (WaitPc.atStop r'.pc) rfl rfl
    · refine .idle ?_ hp hp' rfl nofun
      rw [Result.toEffect, hs]
      exact ⟨rfl, rfl, rfl, rfl, rfl⟩
  | connect hr =>
    exact .idle (connectStep_idle hr).1 rfl (.inr rfl) rfl nofun
  | send hr => exact .idle ((sendStep_quiet hr).shared.symm ▸ .refl s) rfl (.inr rfl) rfl nofun
  | receive hr => exact .idle ((receiveStep_quiet hr).shared.symm ▸ .refl s) rfl (.inr rfl) rfl nofun

/-- Whoever is launched stands outside `Start` and `Stop`. -/
theorem Proc.step_launched :
    ∀ u ∈ o.launched, u = .connect true .readSink ∨ u = .fatalStop .loadStarted := by
  have hnil : o.launched = [] → ∀ u ∈ o.launched, u = .connect true .readSink ∨
      u = .fatalStop .loadStarted := by
    intro hnil
    rw [hnil]
    exact List.forall_mem_nil _
  cases stepped h with
  | start hr => exact fun u hu => .inl ((startStep_frame hr).2.2.2.2 u hu)
  | stop hr => exact hnil (stopStep_frame hr).1
  | recordFatal => simp
  | fatalStop hr =>
    rcases fatalStep_cases hr with ⟨pc', r', rfl, hr', rfl⟩ | ⟨-, -, hl, -⟩
    · exact hnil (stopStep_frame hr').1
    · exact hnil hl
  | wait hr =>
    rcases waitStep_cases hr with ⟨pc', r', rfl, hr', rfl⟩ | ⟨-, -, hl, -⟩
    · exact hnil (stopStep_frame hr').1
    · exact hnil hl
  | connect hr => exact hnil (connectStep_idle hr).2.1
  | send hr => exact hnil (sendStep_quiet hr).launched
  | receive hr => exact hnil (receiveStep_quiet hr).launched

/-- **A goroutine reports only the events of the function it runs**, one at a time. -/
theorem Proc.step_reports : o.events = [] ∨ ∃ e, o.events = [e] ∧ e.ReportedBy p := by
  have hstop : ∀ {q : Proc} {pc r}, q.stopping = some pc → stopStep s pc = some r →
      r.events = [] ∨ ∃ e, r.events = [e] ∧ e.ReportedBy q := by
    intro q pc r hq hr
    refine (stopStep_frame hr).2.2.2.imp_right ?_
    rintro ⟨hevs, rfl⟩
    exact ⟨_, hevs, hq⟩
  cases stepped h with
  | start hr => exact .inl (startStep_frame hr).1
  | stop hr => exact hstop rfl hr
  | recordFatal => exact .inr ⟨_, rfl, rfl⟩
  | fatalStop hr =>
    rcases fatalStep_cases hr with ⟨pc', r', rfl, hr', rfl⟩ | ⟨-, -, -, hevs, -⟩
    · exact hstop rfl hr'
    · exact .inl hevs
  | wait hr =>
    rcases waitStep_cases hr with ⟨pc', r', rfl, hr', rfl⟩ | ⟨hp, -, -, hevs, -⟩
    · exact hstop rfl hr'
    · exact hevs.imp_right fun ⟨x, hx, _⟩ => ⟨_, hx, _, rfl, hp⟩
  | connect hr => exact .inl (connectStep_idle hr).2.2.1
  | send hr => exact (sendStep_quiet hr).reports
  | receive hr => exact (receiveStep_quiet hr).reports

theorem Proc.reportedBy_of_mem {e : Event} (he : e ∈ o.events) : e.ReportedBy p := by
  rcases step_reports h with hevs | ⟨e', hevs, hrep⟩
  · rw [hevs] at he
    cases he
  · rw [hevs] at he
    exact List.mem_singleton.mp he ▸ hrep

end

/-! ### `controllerLifecycle` -/

/-- Inside `OnStart`, holding `controllerLifecycle`. -/
def StartPc.locked : StartPc → Bool
  | .cas | .checkStopped | .lock | .revert _ | .returned _ => false
  | _ => true

/-- Inside `OnStop`, holding `controllerLifecycle`. -/
def StopPc.locked : StopPc → Bool
  | .cas | .checkStarted | .revert | .lock | .quit | .returned _ => false
  | _ => true

/-- The goroutine holds `controllerLifecycle`. -/
def Proc.locked : Proc → Bool
  | .start _ pc => pc.locked
  | p => p.stopping.any StopPc.locked

/-- A flag as a number. -/
def unit (b : Bool) : ℤ := if b then 1 else 0

theorem Proc.kind_of_stopping (h : p.stopping = some pc) :
    p.kind ≠ .start := by
  cases p <;> first | (cases h; done) | exact nofun

theorem Proc.locked_of_stopping (hk : p.kind ≠ .start) :
    p.locked = p.stopping.any StopPc.locked := by
  cases p <;> first | rfl | exact absurd rfl hk

theorem Proc.locked_of_atStop (hk : p.kind ≠ .start) (h : p.AtStop pc) :
    p.locked = pc.locked := by
  rw [locked_of_stopping hk]
  rcases h with h | ⟨⟨e, rfl⟩, h⟩ <;> rw [h] <;> rfl

theorem afterStart_locked (command : Bool) (pc : StartPc) :
    (afterStart enabled command pc).locked = pc.locked := by
  unfold afterStart
  split
  · split <;> rfl
  · rfl

theorem startStep_locked {pc : StartPc} {r : Result StartPc}
    (h : startStep enabled s ch pc = some r) :
    unit r.shared.controllerLifecycle + unit pc.locked =
      unit s.controllerLifecycle + unit r.pc.locked := by
  cases pc <;> dsimp only [startStep] at h
  case unlock e =>
    split at h <;> cases h
    cases e <;> simp_all [unit, StartPc.locked]
  all_goals
    repeat' split at h
    all_goals cases h
    all_goals cases enabled <;> simp_all [unit, StartPc.locked, startStep.rollback]

theorem stopStep_locked (h : stopStep s pc = some r) :
    unit r.shared.controllerLifecycle + unit pc.locked =
      unit s.controllerLifecycle + unit r.pc.locked := by
  unfold stopStep at h
  split at h
  all_goals
    repeat' split at h
    all_goals cases h
    all_goals first | rfl | simp_all [unit, StopPc.locked]

theorem Proc.step_locked (h : p.step enabled s ch = some o) :
    unit o.shared.controllerLifecycle + unit p.locked =
      unit s.controllerLifecycle + unit o.thread.locked := by
  cases step_service h with
  | start hp hr hs hp' =>
    rw [hp, hs, hp', afterStart_locked]
    exact startStep_locked hr
  | stop hp hr hs hp' hk hevs =>
    have hne := kind_of_stopping hp
    rw [hs, locked_of_atStop hne (.inl hp), locked_of_atStop (hk ▸ hne) hp']
    exact stopStep_locked hr
  | idle hs hp hp' hk hne =>
    have hlocked : p.locked = false := by rw [locked_of_stopping hne, hp]; rfl
    have hlocked' : o.thread.locked = false := by
      rcases hp' with hp' | hp'
      · exact locked_of_atStop (hk ▸ hne) hp'
      · rw [locked_of_stopping (hk ▸ hne), hp']
        rfl
    rw [hs.controllerLifecycle, hlocked, hlocked']

/-- The mutex `controllerLifecycle`. -/
def lifecycleLock (enabled : Bool) : Lock (machine enabled) where
  books s := unit s.controllerLifecycle
  held p := unit p.locked
  held_call c := by cases c <;> rfl
  books_world _ _ _ _ := rfl
  kept s ch p o h := by
    have hnew : total (fun p => unit p.locked) o.launched = 0 := by
      refine Pool.total_eq_zero fun u hu => ?_
      rcases step_launched h u hu with rfl | rfl <;> rfl
    rw [hnew, add_zero]
    exact step_locked h
  held_nonneg p := by unfold unit; split <;> decide
  books_le_one s := by unfold unit; split <;> decide
  held_launched s ch p o h u hu := by rcases step_launched h u hu with rfl | rfl <;> rfl

theorem lifecycleLock_holds : (lifecycleLock enabled).Holds p ↔ p.locked = true := by
  show unit p.locked = 1 ↔ p.locked = true
  cases p.locked <;> decide

/-! ### The Node's `started` flag -/

/-- The goroutine has set `started` and not taken it back. -/
def StartPc.owns : StartPc → Bool
  | .cas | .returned (some _) => false
  | _ => true

/-- The goroutine is the one to which the Node's `started` flag belongs. -/
def Proc.owns : Proc → Bool
  | .start _ pc => pc.owns
  | .wait _ => true
  | _ => false

theorem afterStart_owns (command : Bool) (pc : StartPc) :
    (afterStart enabled command pc).owns = pc.owns := by
  unfold afterStart
  split
  · split <;> rfl
  · rfl

theorem Proc.owns_of_kind {p' : Proc} (hk : p.kind = p'.kind) (hne : p.kind ≠ .start) :
    p'.owns = p.owns := by
  have hown : ∀ q : Proc, q.kind ≠ .start → q.owns = (q.kind == .wait) := by
    intro q hq
    cases q <;> first | rfl | exact absurd rfl hq
  rw [hown p hne, hown p' (hk ▸ hne), hk]

theorem startStep_owns {pc : StartPc} {r : Result StartPc}
    (h : startStep enabled s ch pc = some r) :
    (s.node.started = true ∨ pc.owns = false) →
    unit r.shared.node.started + unit pc.owns = unit s.node.started + unit r.pc.owns := by
  intro hown
  cases pc <;> dsimp only [startStep] at h
  case unlock e =>
    split at h <;> cases h
    cases e <;> simp [unit, StartPc.owns]
  all_goals
    repeat' split at h
    all_goals cases h
    all_goals cases enabled <;> simp_all [unit, StartPc.owns, startStep.rollback]

theorem Proc.step_owns (h : p.step enabled s ch = some o)
    (hown : s.node.started = true ∨ p.owns = false) :
    unit o.shared.node.started + unit p.owns = unit s.node.started + unit o.thread.owns := by
  cases step_service h with
  | start hp hr hs hp' =>
    rw [hp] at hown ⊢
    rw [hs, hp', afterStart_owns]
    exact startStep_owns hr hown
  | stop hp hr hs hp' hk hevs =>
    rw [hs, (stopStep_frame hr).2.1, owns_of_kind hk (kind_of_stopping hp)]
  | idle hs hp hp' hk hne => rw [hs.node, owns_of_kind hk hne]

section

variable {ok : State → Action Choice Call World → Prop} {st : State}

/-- **The Node's `started` flag belongs to one goroutine**: it is set exactly if there is one that
has set it and not taken it back. -/
theorem owns_balanced (hr : (machine enabled).Runs ok {} st) :
    unit st.shared.node.started = total (fun p => unit p.owns) st.threads := by
  have hnonneg : ∀ p : Proc, 0 ≤ unit p.owns := by
    intro p
    unfold unit
    split <;> decide
  refine Machine.invariant rfl ?_ ?_ ?_ hr
  · intro st c _ ih
    have hnew : unit (Call.thread c).owns = 0 := by cases c <;> rfl
    show _ = total _ (st.threads ++ [Call.thread c])
    rw [Pool.total_append, Pool.total_cons, Pool.total_nil, hnew, add_zero, add_zero]
    exact ih
  · exact fun _ _ _ _ ih _ => ih
  · rintro st i ch p o ⟨-, -, -, hi, ho⟩ ih
    -- a goroutine that owns the flag finds it set
    have hown : st.shared.node.started = true ∨ p.owns = false := by
      have hle := Pool.le_total hnonneg hi
      cases hp : p.owns with
      | false => exact .inr rfl
      | true =>
        refine .inl ?_
        by_contra hs
        rw [Bool.not_eq_true] at hs
        rw [hs] at ih
        simp only [hp, unit, Bool.false_eq_true, if_false, if_true] at ih hle
        omega
    have hnew : total (fun p => unit p.owns) o.launched = 0 := by
      refine Pool.total_eq_zero fun u hu => ?_
      rcases step_launched ho u hu with rfl | rfl <;> rfl
    have hkept : unit o.shared.node.started + unit p.owns = unit st.shared.node.started +
        unit o.thread.owns + total (fun p => unit p.owns) o.launched := by
      rw [hnew, add_zero]
      exact step_owns ho hown
    have := Pool.balance_step (fun p : Proc => unit p.owns) hi hkept
    show unit o.shared.node.started = total _ (st.threads.set i o.thread ++ o.launched)
    omega

/-- A goroutine whose `Start` has succeeded finds the Node started. -/
theorem started_of_owns (hr : (machine enabled).Runs ok {} st) {i : ℕ}
    (hi : st.threads[i]? = some p) (hp : p.owns = true) : st.shared.node.started = true := by
  have hb := owns_balanced hr
  have hle : unit p.owns ≤ total (fun p => unit p.owns) st.threads :=
    Pool.le_total (f := fun p : Proc => unit p.owns)
      (fun p => by unfold unit; split <;> decide) hi
  by_contra hs
  rw [Bool.not_eq_true] at hs
  rw [hs] at hb
  rw [hp] at hle
  simp only [unit, Bool.false_eq_true, if_false, if_true] at hb hle
  omega

end

/-! ### The flags of the Switch -/

/-- How far a goroutine has got with the flags of the Switch. -/
inductive SwitchPhase where
  | idle
  /-- `Switch.Start` has set `started` -/
  | starting
  /-- `Switch.Stop` has set `stopped` -/
  | stopping
  /-- `Switch.Stop` has found the Switch not started -/
  | undoing
  deriving DecidableEq

def StartPc.phase : StartPc → SwitchPhase
  | .switchCheckStopped | .switchOnStart | .switchRevert => .starting
  | _ => .idle

def StopPc.phase : StopPc → SwitchPhase
  | .switchCheckStarted => .stopping
  | .switchRevert => .undoing
  | _ => .idle

def Proc.phase : Proc → SwitchPhase
  | .start _ pc => pc.phase
  | p => (p.stopping.map StopPc.phase).getD .idle

/-- What is true of the flags of the Switch in each phase. -/
def SwitchPhase.Consistent (b : BaseService) : SwitchPhase → Prop
  | .idle => b.stopped = true → b.started = true
  | .starting => b.started = true ∧ b.stopped = false
  | .stopping => b.stopped = true
  | .undoing => b.stopped = true ∧ b.started = false

/-- The Switch has been started and stopped. -/
def BaseService.Halted (b : BaseService) : Prop := b.started = true ∧ b.stopped = true

instance (b : BaseService) : Decidable b.Halted := inferInstanceAs (Decidable (_ ∧ _))

/-- What one step does to the flags of the Switch. -/
structure SwitchKept (φ : SwitchPhase) (b : BaseService) (φ' : SwitchPhase) (b' : BaseService) :
    Prop where
  consistent : φ.Consistent b → φ'.Consistent b'
  halted : φ.Consistent b → b.Halted → b'.Halted

theorem startStep_switch {pc : StartPc} {r : Result StartPc}
    (h : startStep enabled s ch pc = some r) :
    SwitchKept pc.phase s.sw r.pc.phase r.shared.sw ∧ (pc.locked = false → r.shared.sw = s.sw) := by
  cases pc <;> dsimp only [startStep] at h
  case unlock e =>
    split at h <;> cases h
    cases e <;> exact ⟨⟨id, fun _ => id⟩, fun _ => rfl⟩
  all_goals
    repeat' split at h
    all_goals cases h
    all_goals
      refine ⟨⟨?_, ?_⟩, ?_⟩ <;> cases enabled <;>
        simp_all [StartPc.phase, SwitchPhase.Consistent, BaseService.Halted, StartPc.locked,
          startStep.rollback]

theorem stopStep_switch (h : stopStep s pc = some r) :
    SwitchKept pc.phase s.sw r.pc.phase r.shared.sw ∧ (pc.locked = false → r.shared.sw = s.sw) := by
  unfold stopStep at h
  split at h
  all_goals
    repeat' split at h
    all_goals cases h
    all_goals
      first
      | exact ⟨⟨id, fun _ => id⟩, fun _ => rfl⟩
      | refine ⟨⟨?_, ?_⟩, ?_⟩ <;>
          simp_all [StopPc.phase, SwitchPhase.Consistent, BaseService.Halted, StopPc.locked]

theorem afterStart_phase (command : Bool) (pc : StartPc) :
    (afterStart enabled command pc).phase = pc.phase := by
  unfold afterStart
  split
  · split <;> rfl
  · rfl

theorem Proc.phase_of_stopping (hk : p.kind ≠ .start) :
    p.phase = (p.stopping.map StopPc.phase).getD .idle := by
  cases p <;> first | rfl | exact absurd rfl hk

theorem Proc.phase_of_atStop (hk : p.kind ≠ .start) (h : p.AtStop pc) :
    p.phase = pc.phase := by
  rw [phase_of_stopping hk]
  rcases h with h | ⟨⟨e, rfl⟩, h⟩ <;> rw [h] <;> rfl

/-- Only a goroutine that holds `controllerLifecycle` is in the middle of something. -/
theorem Proc.phase_of_not_locked (h : p.locked = false) : p.phase = .idle := by
  by_cases hk : p.kind = .start
  · obtain ⟨command, pc, rfl⟩ : ∃ command pc, p = .start command pc := by
      cases p <;> first | exact ⟨_, _, rfl⟩ | cases hk
    change pc.locked = false at h
    show pc.phase = .idle
    cases pc <;> first | rfl | cases h
  · rw [locked_of_stopping hk] at h
    rw [phase_of_stopping hk]
    cases hp : p.stopping with
    | none => rfl
    | some pc =>
      rw [hp, any_some] at h
      show pc.phase = .idle
      cases pc <;> first | rfl | cases h

theorem Proc.step_switch (h : p.step enabled s ch = some o) :
    SwitchKept p.phase s.sw o.thread.phase o.shared.sw ∧
      (p.locked = false → o.shared.sw = s.sw) := by
  cases step_service h with
  | start hp hr hs hp' =>
    rw [hp, hs, hp', afterStart_phase]
    exact startStep_switch hr
  | stop hp hr hs hp' hk hevs =>
    have hne := kind_of_stopping hp
    rw [hs, phase_of_atStop hne (.inl hp), phase_of_atStop (hk ▸ hne) hp',
      locked_of_atStop hne (.inl hp)]
    exact stopStep_switch hr
  | idle hs hp hp' hk hne =>
    have hphase : p.phase = .idle := by rw [phase_of_stopping hne, hp]; rfl
    have hphase' : o.thread.phase = .idle := by
      rcases hp' with hp' | hp'
      · exact phase_of_atStop (hk ▸ hne) hp'
      · rw [phase_of_stopping (hk ▸ hne), hp']
        rfl
    rw [hphase, hphase', hs.sw]
    exact ⟨⟨id, fun _ => id⟩, fun _ => rfl⟩

section

variable {ok : State → Action Choice Call World → Prop} {st : State}

/-- **The flags of the Switch are consistent** with what the holder of `controllerLifecycle` is
doing to them. -/
theorem switch_consistent (hr : (machine enabled).Runs ok {} st) :
    Pool.Guarded (lifecycleLock enabled).Holds st.threads (SwitchPhase.idle.Consistent st.shared.sw)
      fun _ p => p.phase.Consistent st.shared.sw := by
  refine (lifecycleLock enabled).invariant
    (F := fun st => SwitchPhase.idle.Consistent st.shared.sw)
    (H := fun st _ p => p.phase.Consistent st.shared.sw) rfl (fun h => by cases h)
    (fun _ _ _ => ⟨id, fun _ _ => id⟩) (fun _ _ _ _ _ => ⟨id, fun _ _ => id⟩) ?_ hr
  rintro st i ch p o ⟨-, -, -, -, ho⟩
  obtain ⟨hkept, hother⟩ := step_switch ho
  simp only [lifecycleLock_holds, Bool.not_eq_true]
  refine ⟨fun _ _ => hkept.consistent, fun _ hp' h => ?_, fun hp _ h => ?_, fun hp _ => ?_⟩
  · exact phase_of_not_locked hp' ▸ hkept.consistent h
  · exact hkept.consistent (phase_of_not_locked hp ▸ h)
  · rw [Config.move_shared, hother hp]
    exact ⟨id, fun _ _ _ _ => id⟩

/-- **A Switch that has been stopped stays so.** -/
theorem halted_stays (hr : (machine enabled).Runs ok {} st) {i : ℕ} (hi : st.threads[i]? = some p)
    (ho : p.step enabled st.shared ch = some o) (h : st.shared.sw.Halted) : o.shared.sw.Halted := by
  obtain ⟨hkept, hother⟩ := step_switch ho
  cases hp : p.locked with
  | false =>
    rw [hother hp]
    exact h
  | true =>
    exact hkept.halted ((switch_consistent hr).of_held i p hi (lifecycleLock_holds.mpr hp)) h

end

/-! ### Starting a node -/

/-- Goroutine `i` takes an ordinary step. -/
def go (i : ℕ) : Action Choice Call World := .run i .go

/-- The command starts the node: goroutine `0` then waits, goroutine `1` accepts. -/
def startRun : List (Action Choice Call World) := .call .runNode :: List.replicate 15 (go 0)

end CometBFT.Node
