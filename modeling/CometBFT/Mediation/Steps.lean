import CometBFT.Mediation.Machine

/-!
# What a step can do

Everything later modules need to know about the step functions of the machine, said once. A step is
a call, a move of one goroutine, or something the world does; and each function has a relation with
one constructor for each way in which it can move, in which the operations on the queues have been
carried out. What a step keeps is then a case analysis, and a case that a property is not about is
closed by computation.

## Main results

* `Thread.stepped` — inversion
* `Thread.step_launched`, `Thread.step_reports` — what a step launches and reports
-/

namespace CometBFT.Mediation

open Option Goroutines

variable {P : Type*} {m : Service P}

/-! ### Inversion -/

variable {st : State P} {t : Thread P}

/-- In a reachable state goroutine `i` takes a step with effect `r`. -/
abbrev Moves (m : Service P) (st : State P) (i : ℕ) (ch : Choice) (t : Thread P) (r : Effect P) :
    Prop := (machine m).Takes (fun _ _ => True) {} st i ch t r

/-- What the machine does while the process runs. -/
theorem next_live (hc : st.shared.crashed = false) (a : Action) :
    next m st a = match a with
      | .call c => some { st with threads := st.threads ++ [c.thread] }
      | .run i ch => (st.threads[i]?.bind (Thread.step m st.shared ch)).map (st.move i)
      | .world w => (st.shared.world w).map fun s => { st with shared := s } := by
  unfold next Machine.next
  rw [if_pos (by simp [machine, hc])]
  cases a <;> rfl

/-- A goroutine inside `fatal` takes a step of `fatal`, and any other a step of its function. -/
theorem Thread.step_cases {s : Shared} {ch : Choice} {r : Effect P}
    (h : t.step m s ch = some r) :
    (∃ f x, t.fatal = some f ∧ f.step s = some x ∧
      r = { shared := x.1, thread := ⟨x.2.1, t.proc⟩, events := x.2.2 }) ∨
    (∃ r', t.fatal = none ∧ t.proc.step m s ch = some r' ∧ r = r'.lift id) := by
  unfold Thread.step at h
  split at h
  · rename_i f hf
    obtain ⟨x, hx, rfl⟩ := map_eq_some_iff.mp h
    exact .inl ⟨f, x, hf, hx, rfl⟩
  · rename_i hf
    obtain ⟨r', hr', rfl⟩ := map_eq_some_iff.mp h
    exact .inr ⟨r', hf, hr', rfl⟩

/-! ### The ways to move -/

/-- The steps of `Submit`. -/
inductive SubmitMoves (m : Service P) (s : Shared) (c : SubmitCall) (ch : Choice) :
    SubmitPc → Result P SubmitPc → Prop where
  | refuse (hp : m.prepare c = .error e) :
    SubmitMoves m s c ch .enter (.raise s .fail (localInvariant e))
  | prepare (hp : m.prepare c = .ok p) : SubmitMoves m s c ch .enter (.to s (.gate p))
  | fail :
    SubmitMoves m s c ch .fail (.to s .done [.submitReturned none])
  | gate (hg : ch = .go ∧ 0 < s.submitGate) : SubmitMoves m s c ch (.gate p)
      (.to { s with submitGate := s.submitGate - 1 } (.slot p) [.gateTaken])
  | giveUp : SubmitMoves m s c ch (.gate p)
      (.to s .done [.submitReturned none])
  | slot (hs : ch = .go ∧ s.outboundSlots < m.limits.outboundQueueCapacity) :
    SubmitMoves m s c ch (.slot p)
      (.to { s with outboundSlots := s.outboundSlots + 1 } (.ready p))
  | noSlot : SubmitMoves m s c ch (.slot p) (.to s (.leave none))
  | ready (hr : s.isReady = true) : SubmitMoves m s c ch (.ready p) (.to s (.bytes p))
  | notReady : SubmitMoves m s c ch (.ready p) (.to s .dropSlot)
  | dropSlot (hs : 0 < s.outboundSlots) : SubmitMoves m s c ch .dropSlot
      (.to { s with outboundSlots := s.outboundSlots - 1 } (.leave none))
  | noBytes : SubmitMoves m s c ch (.bytes p) (.to s .dropSlot)
  | bytes (hb : ¬ s.outboundBytes + p.payload.length > m.limits.outboundQueueBytes) :
    SubmitMoves m s c ch (.bytes p) (.to s (.reserve p))
  | reserve : SubmitMoves m s c ch (.reserve p)
      (.to { s with outboundBytes := s.outboundBytes + p.payload.length } (.number p))
  | noNumber : SubmitMoves m s c ch (.number p) (.to s (.undoBytes p e))
  | number {id : Bytes} (hn : m.nextID s c.destination = .ok ({ s with counters, counterCount }, id)) :
    SubmitMoves m s c ch (.number p)
      (.to { s with counters, counterCount }
        (.enqueue ⟨m.localID, c.destination, p.payload, p.label, id⟩) [.numbered id])
  | undoBytes : SubmitMoves m s c ch (.undoBytes p e)
      (.to { s with outboundBytes := s.outboundBytes - p.payload.length } (.undoSlot e))
  | undoSlot (hs : 0 < s.outboundSlots) : SubmitMoves m s c ch (.undoSlot e)
      (.raise { s with outboundSlots := s.outboundSlots - 1 } (.leave none) (localInvariant e))
  | sendClosed (hc : s.outboundQueue.closed = true) :
    SubmitMoves m s c ch (.enqueue msg) (.crash s (.enqueue msg))
  | enqueue (hc : s.outboundQueue.closed = false) : SubmitMoves m s c ch (.enqueue msg)
      (.to { s with outboundQueue := ⟨s.outboundQueue.buf ++ [⟨msg, msg.Data.length⟩], false⟩ }
        (.leave (some msg)) [.enqueued ⟨msg, msg.Data.length⟩])
  | leave (hg : s.submitGate < 1) : SubmitMoves m s c ch (.leave o)
      (.to { s with submitGate := s.submitGate + 1 } .done [.submitReturned o])

/-- The steps of `serveMessage`. -/
inductive ServeMoves (m : Service P) (s : Shared) : ServePc → Result P ServePc → Prop where
  | method : ServeMoves m s (.request q) (.to s (.respond (.rejected .methodNotAllowed)))
  | contentType : ServeMoves m s (.request q) (.to s (.respond (.rejected .contentType)))
  | request : ServeMoves m s (.request q) (.to s (.ready q))
  | outerRejected : ServeMoves m s (.ready q) (.to s (.respond (.rejected e)))
  | outer (hr : s.isReady = true) (ho : m.checkOuter q = .ok outer) :
    ServeMoves m s (.ready q) (.to s (.lookup outer))
  | stranger : ServeMoves m s (.lookup outer) (.to s (.respond (.rejected .staleSource)))
  | lookup (hp : s.peers outer.From = some peer) :
    ServeMoves m s (.lookup outer) (.to s (.running outer peer))
  | disconnected :
    ServeMoves m s (.running outer peer) (.to s (.respond (.rejected .staleSource)))
  | payloadRejected (ha : m.checkPayload outer = .error a) :
    ServeMoves m s (.running outer peer) (.to s (.respond a))
  | payload (hrun : s.running peer = true) (hi : m.checkPayload outer = .ok i) :
    ServeMoves m s (.running outer peer) (.to s (.lock i))
  | lock (hfree : s.callbackMu = false) :
    ServeMoves m s (.lock i) (.to { s with callbackMu := true } (.check i))
  | check (hr : s.isReady = true) : ServeMoves m s (.check i) (.to s (.slot i))
  | notReady (hr : s.isReady = false) :
    ServeMoves m s (.check i) (.to s (.unlock i false))
  | slot (hs : s.callbackSlots < m.limits.callbackQueueCapacity) : ServeMoves m s (.slot i)
      (.to { s with callbackSlots := s.callbackSlots + 1 } (.bytes i))
  | noSlot (hs : ¬ s.callbackSlots < m.limits.callbackQueueCapacity) :
    ServeMoves m s (.slot i) (.to s (.unlock i false))
  | noBytes (hb : s.callbackBytes + i.bytes > m.limits.callbackQueueBytes) :
    ServeMoves m s (.bytes i) (.to s (.dropSlot i))
  | bytes (hb : ¬ s.callbackBytes + i.bytes > m.limits.callbackQueueBytes) :
    ServeMoves m s (.bytes i) (.to s (.reserve i))
  | dropSlot (hs : 0 < s.callbackSlots) : ServeMoves m s (.dropSlot i)
      (.to { s with callbackSlots := s.callbackSlots - 1 } (.unlock i false))
  | reserve : ServeMoves m s (.reserve i)
      (.to { s with callbackBytes := s.callbackBytes + i.bytes } (.enqueue i))
  | sendClosed (hc : s.callbackQueue.closed = true) :
    ServeMoves m s (.enqueue i) (.crash s (.enqueue i))
  | enqueue (hc : s.callbackQueue.closed = false) : ServeMoves m s (.enqueue i)
      (.to { s with callbackQueue := ⟨s.callbackQueue.buf ++ [i], false⟩ } (.unlock i true)
        [.callbackEnqueued i])
  | accept (hmu : s.callbackMu = true) : ServeMoves m s (.unlock i true)
      (.to { s with callbackMu := false } (.respond .accepted) [.callbackReturned i true])
  | decline (hmu : s.callbackMu = true) : ServeMoves m s (.unlock i false)
      (.to { s with callbackMu := false } (.stopping i) [.callbackReturned i false])
  | unlocked (hmu : s.callbackMu = false) : ServeMoves m s (.unlock i b) (.crash s (.unlock i b))
  | shutdown : ServeMoves m s (.stopping i)
      (.to s (.respond (.rejected .shutdownRejected)))
  | admissionFatal (hs : s.stopping = false) : ServeMoves m s (.stopping i)
      (.raise s (.respond (.rejected .admissionFatal)) (controlChannelFailure .admission))
  | respond : ServeMoves m s (.respond a) (.to s .done [.responded a])

/-- The steps of `submissionWorker`. -/
inductive SubmissionMoves (s : Shared) (ch : Choice) :
    SubmissionPc → Result P SubmissionPc → Prop where
  | recv (hb : s.outboundQueue.buf = i :: buf) : SubmissionMoves s ch .recv
      (.to { s with outboundQueue := ⟨buf, s.outboundQueue.closed⟩ } (.slot i) [.outboundTaken i])
  | finish (hb : s.outboundQueue.buf = []) (hc : s.outboundQueue.closed = true) :
    SubmissionMoves s ch .recv (.to s (.exit true))
  | slot (hs : 0 < s.outboundSlots) : SubmissionMoves s ch (.slot i)
      (.to { s with outboundSlots := s.outboundSlots - 1 } (.post i))
  | post :
    SubmissionMoves s ch (.post i)
      (.to s (.answer i 1 true) [.posted i.message])
  | noPost : SubmissionMoves s ch (.post i) (.to s (.bytes i (some .transport)))
  | redirect : SubmissionMoves s ch (.answer i sent posting)
      (.to s (.answer i (sent + 1) posting'))
  | repost : SubmissionMoves s ch (.answer i sent posting)
      (.to s (.answer i (sent + 1) posting') [.reposted i.message])
  | answer : SubmissionMoves s ch (.answer i sent posting)
      (.to s (.bytes i err) [.answered i.message posting err])
  | bytes : SubmissionMoves s ch (.bytes i none)
      (.to { s with outboundBytes := s.outboundBytes - i.bytes } .recv)
  | fatal : SubmissionMoves s ch (.bytes i (some e))
      (.raise { s with outboundBytes := s.outboundBytes - i.bytes } (.exit false)
        (controlChannelFailure (.submit i.message.ID e)))
  | exit (hw : 0 < s.workers) : SubmissionMoves s ch (.exit ok)
      (.to { s with workers := s.workers - 1 } (.stopped ok))

/-- The steps of `reinjectionWorker`. -/
inductive ReinjectionMoves (m : Service P) (s : Shared) (ch : Choice) :
    ReinjectionPc P → Result P (ReinjectionPc P) → Prop where
  | recv (hb : s.callbackQueue.buf = i :: buf) : ReinjectionMoves m s ch .recv
      (.to { s with callbackQueue := ⟨buf, s.callbackQueue.closed⟩ } (.slot i) [.callbackTaken i])
  | finish (hb : s.callbackQueue.buf = []) (hc : s.callbackQueue.closed = true) :
    ReinjectionMoves m s ch .recv (.to s (.exit true))
  | slot (hs : 0 < s.callbackSlots) : ReinjectionMoves m s ch (.slot i)
      (.to { s with callbackSlots := s.callbackSlots - 1 } (.lookup i))
  | stranger (hp : s.peers i.message.From = none) :
    ReinjectionMoves m s ch (.lookup i) (.to s (.bytes i (some .disconnected)))
  | lookup (hp : s.peers i.message.From = some peer) :
    ReinjectionMoves m s ch (.lookup i) (.to s (.running i peer))
  | noRoute (hroute : m.registry i.channelID = none) :
    ReinjectionMoves m s ch (.running i peer) (.to s (.bytes i (some .decode)))
  | undecoded (hroute : m.registry i.channelID = some route) (hd : route.decode i.wrapped = none) :
    ReinjectionMoves m s ch (.running i peer) (.to s (.bytes i (some .decode)))
  | running (hrun : s.running peer = true) (hroute : m.registry i.channelID = some route)
      (hd : route.decode i.wrapped = some msg) (hreactor : route.hasReactor = true) :
    ReinjectionMoves m s ch (.running i peer) (.to s (.dispatch i peer msg))
  | noReactor (hroute : m.registry i.channelID = some route) (hreactor : ¬ route.hasReactor = true) :
    ReinjectionMoves m s ch (.running i peer) (.to s (.bytes i (some .missingRoute)))
  | disconnected (hrun : ¬ s.running peer = true) :
    ReinjectionMoves m s ch (.running i peer) (.to s (.bytes i (some .disconnected)))
  | dispatch : ReinjectionMoves m s ch (.dispatch i peer msg)
      (.to s (.receive i peer msg) [.received i peer msg])
  | receive : ReinjectionMoves m s ch (.receive i peer msg) (.to s (.bytes i none))
  | stopSource (hch : ch = .stopSource) : ReinjectionMoves m s ch (.receive i peer msg)
      (.to { s with running := Function.update s.running peer false } (.receive i peer msg))
  | removeSource (hch : ch = .removeSource) : ReinjectionMoves m s ch (.receive i peer msg)
      (.to { s with peers := Function.update s.peers i.message.From none } (.receive i peer msg))
  | reactorPanic (hch : ch = .reactorPanic) : ReinjectionMoves m s ch (.receive i peer msg)
      (.to s (.bytes i (some .reactorPanic)))
  | bytes : ReinjectionMoves m s ch (.bytes i none)
      (.to { s with callbackBytes := s.callbackBytes - i.bytes } .recv)
  | fatal : ReinjectionMoves m s ch (.bytes i (some e))
      (.raise { s with callbackBytes := s.callbackBytes - i.bytes } (.exit false)
        (localInvariant (.lost i.message.ID e)))
  | exit (hw : 0 < s.workers) : ReinjectionMoves m s ch (.exit ok)
      (.to { s with workers := s.workers - 1 } (.stopped ok))

/-- The steps of `Start` and `Stop`, those of `stopLocked` last. -/
inductive LifecycleMoves (m : Service P) (s : Shared) (ch : Choice) :
    LifecyclePc → Result P LifecyclePc → Prop where
  | startLock (hfree : s.lifecycleMu = false) : LifecycleMoves m s ch .startLock
      (.to { s with lifecycleMu := true } .startCheck)
  | started (hl : s.lifecycle ≠ .new) : LifecycleMoves m s ch .startCheck
      (.to s (.unlock (.start (some .alreadyTransitioned)) s.lifecycle))
  | start (hl : s.lifecycle = .new) : LifecycleMoves m s ch .startCheck
      (.to { s with lifecycle := .starting } .listen)
  | listen : LifecycleMoves m s ch .listen
      { shared := { s with workers := s.workers + 2 }, pc := .register 1,
        launched := [.submission .recv, .reinjection .recv, .listener true] }
  | bindFails :
    LifecycleMoves m s ch .listen (.to s (.teardown (.start (some .bind)) .flags))
  | registerEnds : LifecycleMoves m s ch (.register k)
      (.to s (.teardown (.start (some .registrationExhausted)) .flags))
  | unregistered : LifecycleMoves m s ch (.register k) (.to s (.retry k))
  | registered : LifecycleMoves m s ch (.register k) (.to s .becomeReady)
  | retryEnds (he : e = .registrationExhausted ∨ e = .registrationCanceled) :
    LifecycleMoves m s ch (.retry k) (.to s (.teardown (.start (some e)) .flags))
  | retry : LifecycleMoves m s ch (.retry k) (.to s (.register (k + 1)))
  | alreadyFatal (he : s.fatalErr = some e) : LifecycleMoves m s ch .becomeReady
      (.to s (.teardown (.start (some (.fatal e))) .flags))
  | becomeReady (he : s.fatalErr = none) : LifecycleMoves m s ch .becomeReady
      (.to { s with ready := true, everReady := true } (.unlock (.start none) .running))
  | stopLock (hfree : s.lifecycleMu = false) : LifecycleMoves m s ch .stopLock
      (.to { s with lifecycleMu := true } .stopCheck)
  | stopped (hl : s.lifecycle = .stopped) :
    LifecycleMoves m s ch .stopCheck (.to s (.unlock .stop .stopped))
  | stop (hl : s.lifecycle ≠ .stopped) : LifecycleMoves m s ch .stopCheck
      (.to { s with lifecycle := .stopping } (.teardown .stop .flags))
  | unlock (hmu : s.lifecycleMu = true) : LifecycleMoves m s ch (.unlock r l)
      (.to { s with lifecycle := l, lifecycleMu := false } .done [.returned r])
  | unlocked (hmu : s.lifecycleMu = false) :
    LifecycleMoves m s ch (.unlock r l) (.crash s (.unlock r l))
  | flags : LifecycleMoves m s ch (.teardown r .flags)
      (.to { s with ready := false, stopping := true } (.teardown r .shutdown))
  | shutdown : LifecycleMoves m s ch (.teardown r .shutdown)
      (.to { s with cancelled := true } (.teardown r .takeGate))
  | takeGate (hg : 0 < s.submitGate) : LifecycleMoves m s ch (.teardown r .takeGate)
      (.to { s with submitGate := s.submitGate - 1 } (.teardown r .closeOutbound) [.gateTaken])
  | closeOutbound (hc : s.outboundQueue.closed = false) :
    LifecycleMoves m s ch (.teardown r .closeOutbound)
      (.to { s with outboundQueue := ⟨s.outboundQueue.buf, true⟩ } (.teardown r .putGate)
        [.outboundClosed])
  | outboundClosed (hc : s.outboundQueue.closed = true) :
    LifecycleMoves m s ch (.teardown r .closeOutbound) (.crash s (.teardown r .closeOutbound))
  | putGate (hg : s.submitGate < 1) : LifecycleMoves m s ch (.teardown r .putGate)
      (.to { s with submitGate := s.submitGate + 1 } (.teardown r .lockCallback))
  | lockCallback (hfree : s.callbackMu = false) : LifecycleMoves m s ch (.teardown r .lockCallback)
      (.to { s with callbackMu := true } (.teardown r .closeCallback))
  | closeCallback (hc : s.callbackQueue.closed = false) :
    LifecycleMoves m s ch (.teardown r .closeCallback)
      (.to { s with callbackQueue := ⟨s.callbackQueue.buf, true⟩ } (.teardown r .unlockCallback)
        [.callbackClosed])
  | callbackClosed (hc : s.callbackQueue.closed = true) :
    LifecycleMoves m s ch (.teardown r .closeCallback) (.crash s (.teardown r .closeCallback))
  | unlockCallback (hmu : s.callbackMu = true) : LifecycleMoves m s ch (.teardown r .unlockCallback)
      (.to { s with callbackMu := false } (.teardown r .wait))
  | callbackUnlocked (hmu : s.callbackMu = false) :
    LifecycleMoves m s ch (.teardown r .unlockCallback) (.crash s (.teardown r .unlockCallback))
  | wait (hw : s.workers = 0) :
    LifecycleMoves m s ch (.teardown r .wait) (.to s (.teardown r .drainOutbound))
  | timeout : LifecycleMoves m s ch (.teardown r .wait)
      (.raise s (.unlock r .stopped) (localInvariant .shutdownTimeout))
  | drainOutbound (hb : s.outboundQueue.buf = i :: buf) :
    LifecycleMoves m s ch (.teardown r .drainOutbound)
      (.to { s with outboundQueue := ⟨buf, s.outboundQueue.closed⟩ } (.teardown r (.outboundSlot i))
        [.outboundDrained i])
  | outboundDrained (hb : s.outboundQueue.buf = []) :
    LifecycleMoves m s ch (.teardown r .drainOutbound)
      (.to s (.teardown r .drainCallback))
  | outboundSlot (hs : 0 < s.outboundSlots) :
    LifecycleMoves m s ch (.teardown r (.outboundSlot i))
      (.to { s with outboundSlots := s.outboundSlots - 1 } (.teardown r (.outboundBytes i)))
  | outboundBytes : LifecycleMoves m s ch (.teardown r (.outboundBytes i))
      (.to { s with outboundBytes := s.outboundBytes - i.bytes } (.teardown r .drainOutbound))
  | drainCallback (hb : s.callbackQueue.buf = i :: buf) :
    LifecycleMoves m s ch (.teardown r .drainCallback)
      (.to { s with callbackQueue := ⟨buf, s.callbackQueue.closed⟩ } (.teardown r (.callbackSlot i))
        [.callbackDrained i])
  | callbackDrained (hb : s.callbackQueue.buf = []) :
    LifecycleMoves m s ch (.teardown r .drainCallback)
      (.to s (.unlock r .stopped) [.released])
  | callbackSlot (hs : 0 < s.callbackSlots) :
    LifecycleMoves m s ch (.teardown r (.callbackSlot i))
      (.to { s with callbackSlots := s.callbackSlots - 1 } (.teardown r (.callbackBytes i)))
  | callbackBytes : LifecycleMoves m s ch (.teardown r (.callbackBytes i))
      (.to { s with callbackBytes := s.callbackBytes - i.bytes } (.teardown r .drainCallback))

/-- The steps of the goroutine around `server.Serve`. -/
inductive ListenerMoves (s : Shared) : Bool → Result P Bool → Prop where
  | closed : ListenerMoves s true (.to s false)
  | terminated : ListenerMoves s true
      (.raise s false (controlChannelFailure .listenerTerminated))

/-- The steps of `fatal`. -/
inductive FatalMoves (s : Shared) : FatalPc → Shared × Option FatalPc × List (Event P) → Prop where
  | known (he : s.fatalErr.isSome = true) : FatalMoves s (.record e) (s, none, [])
  | record (he : s.fatalErr = none) : FatalMoves s (.record e)
      ({ s with fatalErr := some e, ready := false }, some (.send e s.everReady), [.fatalRecorded e])
  | send (hc : s.fatalC.length < 1) : FatalMoves s (.send e b)
      ({ s with fatalC := s.fatalC ++ [e] }, if b then some (.notify e) else none, [])
  | notify : FatalMoves s (.notify e)
      ({ s with controllerFatal := some (s.controllerFatal.getD e) }, none, [.ownerNotified e])

variable {s : Shared} {ch : Choice}

theorem FatalPc.step_moves {f : FatalPc} {x : Shared × Option FatalPc × List (Event P)}
    (h : f.step s = some x) : FatalMoves s f x := by
  cases f <;> dsimp only [FatalPc.step] at h
  case record e =>
    split at h <;> cases h
    · exact .known ‹_›
    · exact .record (not_isSome_iff_eq_none.mp ‹_›)
  case send e b =>
    split at h <;> cases h
    exact .send ‹_›
  case notify e =>
    cases h
    exact .notify

theorem submitStep_moves {c : SubmitCall} {pc : SubmitPc} {r : Result P SubmitPc}
    (h : submitStep m s c ch pc = some r) : SubmitMoves m s c ch pc r := by
  cases pc <;> dsimp only [submitStep] at h
  case number p =>
    split at h <;> cases h
    · exact .noNumber
    · rename_i s' id hn
      -- `nextID` writes only the counters
      have hs : s' = { s with counters := s'.counters, counterCount := s'.counterCount } := by
        unfold Service.nextID at hn
        split at hn <;> split at hn <;> cases hn <;> rfl
      rw [hs] at hn ⊢
      exact .number hn
  case enqueue msg =>
    split at h <;> cases h
    · exact .sendClosed (Chan.send_eq_panics.mp ‹_›)
    · obtain ⟨hc, -, rfl⟩ := Chan.send_eq_done.mp ‹_›
      exact .enqueue hc
  all_goals
    repeat' split at h
    all_goals cases h
    all_goals constructor <;> assumption

theorem serveStep_moves {pc : ServePc} {r : Result P ServePc} (h : serveStep m s pc = some r) :
    ServeMoves m s pc r := by
  cases pc <;> dsimp only [serveStep] at h
  case enqueue i =>
    split at h <;> cases h
    · exact .sendClosed (Chan.send_eq_panics.mp ‹_›)
    · obtain ⟨hc, -, rfl⟩ := Chan.send_eq_done.mp ‹_›
      exact .enqueue hc
  case unlock i b =>
    split at h <;> cases h
    · cases b
      · exact .decline ‹_›
      · exact .accept ‹_›
    · exact .unlocked (Bool.eq_false_iff.mpr ‹_›)
  all_goals
    repeat' split at h
    all_goals cases h
    all_goals constructor <;> first | assumption | exact Bool.eq_false_iff.mpr ‹_›

theorem submissionStep_moves {pc : SubmissionPc} {r : Result P SubmissionPc}
    (h : submissionStep s ch pc = some r) : SubmissionMoves s ch pc r := by
  cases pc <;> dsimp only [submissionStep] at h
  case recv =>
    split at h <;> cases h
    · obtain ⟨buf, hb, rfl⟩ := Chan.recv_eq_some.mp ‹_›
      exact .recv hb
    · obtain ⟨hb, hc, -⟩ := Chan.recv_eq_none.mp ‹_›
      exact .finish hb hc
  case answer i sent posting =>
    split at h
    · split at h <;> cases h
      split
      · exact .repost
      · exact .redirect
    all_goals cases h
    all_goals exact .answer
  all_goals
    repeat' split at h
    all_goals cases h
    all_goals constructor <;> assumption

theorem reinjectionStep_moves {pc : ReinjectionPc P} {r : Result P (ReinjectionPc P)}
    (h : reinjectionStep m s ch pc = some r) : ReinjectionMoves m s ch pc r := by
  cases pc <;> dsimp only [reinjectionStep] at h
  case recv =>
    split at h <;> cases h
    · obtain ⟨buf, hb, rfl⟩ := Chan.recv_eq_some.mp ‹_›
      exact .recv hb
    · obtain ⟨hb, hc, -⟩ := Chan.recv_eq_none.mp ‹_›
      exact .finish hb hc
  case receive i peer msg =>
    split at h <;> cases h
    · exact .receive
    · exact .stopSource rfl
    · exact .removeSource rfl
    · exact .reactorPanic rfl
  case running i peer =>
    split at h
    · split at h
      · cases h
        exact .noRoute ‹_›
      · split at h
        · cases h
          exact .undecoded ‹_› ‹_›
        · split at h <;> cases h
          · exact .running ‹_› ‹_› ‹_› ‹_›
          · exact .noReactor ‹_› ‹_›
    · cases h
      exact .disconnected ‹_›
  all_goals
    repeat' split at h
    all_goals cases h
    all_goals constructor <;> assumption

theorem lifecycleStep_moves {pc : LifecyclePc} {r : Result P LifecyclePc}
    (h : lifecycleStep m s ch pc = some r) : LifecycleMoves m s ch pc r := by
  cases pc <;> dsimp only [lifecycleStep] at h
  case teardown ret pc =>
    obtain ⟨r', hr', rfl⟩ := map_eq_some_iff.mp h
    cases pc <;> dsimp only [stopStep] at hr'
    case closeOutbound =>
      split at hr' <;> cases hr'
      · obtain ⟨hc, rfl⟩ := Chan.close_eq_done.mp ‹_›
        exact .closeOutbound hc
      · exact .outboundClosed (Chan.close_eq_panics.mp ‹_›)
    case closeCallback =>
      split at hr' <;> cases hr'
      · obtain ⟨hc, rfl⟩ := Chan.close_eq_done.mp ‹_›
        exact .closeCallback hc
      · exact .callbackClosed (Chan.close_eq_panics.mp ‹_›)
    case drainOutbound =>
      split at hr' <;> cases hr'
      · obtain ⟨buf, hb, rfl⟩ := Chan.recv_eq_some.mp ‹_›
        exact .drainOutbound hb
      · exact .outboundDrained (Chan.recv_eq_none.mp ‹_›).1
    case drainCallback =>
      split at hr' <;> cases hr'
      · obtain ⟨buf, hb, rfl⟩ := Chan.recv_eq_some.mp ‹_›
        exact .drainCallback hb
      · exact .callbackDrained (Chan.recv_eq_none.mp ‹_›).1
    all_goals
      repeat' split at hr'
      all_goals cases hr'
      all_goals constructor <;> first | assumption | exact Bool.eq_false_iff.mpr ‹_›
  case retry k =>
    repeat' split at h
    all_goals cases h
    · exact .retryEnds (.inl rfl)
    · exact .retry
    · exact .retryEnds (.inr rfl)
  case startCheck =>
    split at h <;> cases h
    · exact .started ‹_›
    · exact .start (not_not.mp ‹_›)
  all_goals
    repeat' split at h
    all_goals cases h
    all_goals constructor <;> first | assumption | exact Bool.eq_false_iff.mpr ‹_›

theorem listenerStep_moves {b : Bool} {r : Result P Bool} (h : listenerStep s ch b = some r) :
    ListenerMoves s b r := by
  cases b <;> dsimp only [listenerStep] at h
  · cases h
  · split at h <;> cases h
    · exact .closed
    · exact .terminated

/-- The steps of a goroutine, by the function that makes them. -/
inductive Stepped (m : Service P) (s : Shared) (ch : Choice) :
    Thread P → Effect P → Prop where
  | fatal (hr : FatalMoves s f x) :
    Stepped m s ch ⟨some f, p⟩ { shared := x.1, thread := ⟨x.2.1, p⟩, events := x.2.2 }
  | submit (hr : SubmitMoves m s c ch pc r) :
    Stepped m s ch ⟨none, .submit c pc⟩ (r.lift (.submit c))
  | serve (hr : ServeMoves m s pc r) : Stepped m s ch ⟨none, .serve pc⟩ (r.lift .serve)
  | submission (hr : SubmissionMoves s ch pc r) :
    Stepped m s ch ⟨none, .submission pc⟩ (r.lift .submission)
  | reinjection (hr : ReinjectionMoves m s ch pc r) :
    Stepped m s ch ⟨none, .reinjection pc⟩ (r.lift .reinjection)
  | lifecycle (hr : LifecycleMoves m s ch pc r) :
    Stepped m s ch ⟨none, .lifecycle pc⟩ (r.lift .lifecycle)
  | listener (hr : ListenerMoves s b r) : Stepped m s ch ⟨none, .listener b⟩ (r.lift .listener)

theorem Thread.stepped {r : Effect P} (h : t.step m s ch = some r) :
    Stepped m s ch t r := by
  rcases t with ⟨_ | f, p⟩
  · rcases Thread.step_cases h with ⟨f, x, hf, -, -⟩ | ⟨r', -, hr', rfl⟩
    · cases hf
    · cases p <;> dsimp only [Proc.step] at hr'
      case caller => cases hr'
      all_goals obtain ⟨r, hr, rfl⟩ := map_eq_some_iff.mp hr'
      case submit => exact .submit (submitStep_moves hr)
      case serve => exact .serve (serveStep_moves hr)
      case submission => exact .submission (submissionStep_moves hr)
      case reinjection => exact .reinjection (reinjectionStep_moves hr)
      case lifecycle => exact .lifecycle (lifecycleStep_moves hr)
      case listener => exact .listener (listenerStep_moves hr)
  · rcases Thread.step_cases h with ⟨f', x, hf, hx, rfl⟩ | ⟨r', hf, -, -⟩
    · cases hf
      exact .fatal (FatalPc.step_moves hx)
    · cases hf

/-- Goroutines are launched only by `Start`, all three together. -/
theorem Thread.step_launched {r : Effect P} (h : t.step m s ch = some r) :
    r.launched = [] ∨ r.launched = [{ proc := .submission .recv }, { proc := .reinjection .recv },
      { proc := .listener true }] := by
  cases Thread.stepped h <;> rename_i hr <;> cases hr
  case lifecycle.listen => exact .inr rfl
  all_goals exact .inl rfl

theorem Thread.mem_launched {u : Thread P} {r : Effect P} (h : t.step m s ch = some r)
    (hu : u ∈ r.launched) : u = { proc := .submission .recv } ∨ u = { proc := .reinjection .recv } ∨
      u = { proc := .listener true } := by
  rcases Thread.step_launched h with hl | hl <;> rw [hl] at hu
  · cases hu
  · simpa using hu

/-! ### Who reports what -/

/-- What a goroutine is doing, as far as the events it may report are concerned. -/
inductive Role where
  | submit | serve | submission | reinjection | lifecycle | listener | fatal
  deriving DecidableEq, Repr

def Proc.role : Proc P → Role
  | .submit _ _ => .submit
  | .serve _ => .serve
  | .submission _ => .submission
  | .reinjection _ => .reinjection
  | .lifecycle _ => .lifecycle
  | .listener _ => .listener
  | .caller => .fatal

def Thread.role (t : Thread P) : Role := if t.fatal.isSome then .fatal else t.proc.role

/-- The events that each role reports. -/
def Event.reportedBy : Event P → Role → Bool
  | .gateTaken, role => role = .submit || role = .lifecycle
  | .numbered _, role | .enqueued _, role | .submitReturned _, role => role = .submit
  | .outboundTaken _, role | .posted _, role | .reposted _, role | .answered _ _ _, role =>
    role = .submission
  | .outboundClosed, role | .callbackClosed, role | .outboundDrained _, role
  | .callbackDrained _, role | .released, role | .returned _, role => role = .lifecycle
  | .callbackEnqueued _, role | .callbackReturned _ _, role | .responded _, role => role = .serve
  | .callbackTaken _, role | .received _ _ _, role => role = .reinjection
  | .fatalRecorded _, role | .ownerNotified _, role => role = .fatal

/-- **A goroutine reports only the events of its role.** -/
theorem Thread.step_reports {r : Effect P} (h : t.step m s ch = some r) :
    ∀ e ∈ r.events, e.reportedBy t.role = true := by
  cases Thread.stepped h <;> rename_i hr <;> cases hr
  all_goals first | exact List.forall_mem_nil _ | exact List.forall_mem_singleton.mpr rfl

end CometBFT.Mediation
