import CometBFT.Mediation.Lifecycle

/-!
# Lifecycle safety

Closing a queue races with the senders. The senders are ruled out by a readiness check made inside
the lock under which the queue is closed: a `Submit` that has passed it still holds the gate, a
callback that has passed it still holds `callbackMu`, and until either lets go the queue stays
open. From this follow the absence of panics, that the queues are closed once and not used
afterwards, and that nothing is accepted once `Stop` has returned.

## Main results

* `outbound_open`, `callback_open` — a sender that has been admitted finds its queue open
* `not_crashed` — no goroutine ever panics
* `lifecycle_safety` — the lifecycle guarantees of the service
-/

namespace CometBFT.Mediation

open List Event Thread Goroutines

open Pool (total)

variable {P : Type*} {m : Service P} {s : Shared} {ch : Choice}

/-! ### Admitted senders -/

/-- A `Submit` that has found the service ready and has not returned false over the bytes. -/
@[simp] def admitted : Proc P → Bool
  | .submit _ (.bytes _) | .submit _ (.reserve _) | .submit _ (.number _)
  | .submit _ (.undoBytes _ _) | .submit _ (.undoSlot _) | .submit _ (.enqueue _)
  | .submit _ (.leave (some _)) => true
  | _ => false

/-- An `acceptCallback` that has found the service ready and has not given up. -/
@[simp] def accepting : Proc P → Bool
  | .serve (.slot _) | .serve (.bytes _) | .serve (.dropSlot _) | .serve (.reserve _)
  | .serve (.enqueue _) | .serve (.unlock _ true) => true
  | _ => false

theorem holdsGate_of_admitted {p : Proc P} (h : admitted p = true) : holdsGate p = 1 := by
  unfold admitted at h
  split at h <;> first | rfl | cases h

theorem holdsCallbackMu_of_accepting {p : Proc P} (h : accepting p = true) :
    holdsCallbackMu p = 1 := by
  unfold accepting at h
  split at h <;> first | rfl | cases h

variable {t : Thread P} {r : Effect P}

section

variable (h : t.step m s ch = some r)

include h

theorem Thread.step_admitted (ha : admitted r.thread.proc = true) :
    admitted t.proc = true ∨ s.isReady = true := by
  cases stepped h <;> rename_i hr <;> cases hr
  all_goals first | exact .inl ha | exact .inl rfl | exact .inr ‹_› | cases ha

theorem Thread.step_accepting (ha : accepting r.thread.proc = true) :
    accepting t.proc = true ∨ s.isReady = true := by
  cases stepped h <;> rename_i hr <;> cases hr
  all_goals first | exact .inl ha | exact .inl rfl | exact .inr ‹_›

/-! ### Who closes a queue -/

/-- A queue is closed only by a goroutine holding the lock its senders take. -/
theorem Thread.step_closed :
    (holdsGate t.proc ≠ 1 → r.shared.outboundQueue.closed = s.outboundQueue.closed) ∧
    (holdsCallbackMu t.proc ≠ 1 → r.shared.callbackQueue.closed = s.callbackQueue.closed) := by
  rcases quiet_or_lifecycle h with hq | ⟨pc, r', rfl, hr', rfl⟩
  · exact ⟨fun _ => hq.outboundClosed, fun _ => hq.callbackClosed⟩
  · cases hr'
    case closeOutbound => exact ⟨fun hg => absurd rfl hg, fun _ => rfl⟩
    case closeCallback => exact ⟨fun _ => rfl, fun hg => absurd rfl hg⟩
    all_goals exact ⟨fun _ => rfl, fun _ => rfl⟩

theorem everReady_mono (he : s.everReady = true) : r.shared.everReady = true := by
  rcases quiet_or_lifecycle h with hq | ⟨pc, r', -, hr', rfl⟩
  · exact hq.everReady.trans he
  · rcases hr'.ready with h | ⟨-, h⟩
    · exact h
    · exact h.trans he

end

variable {st : State P}

theorem everReady_of_isReady (hr : m.Reaches st) (h : st.shared.isReady = true) :
    st.shared.everReady = true := by
  simp only [Shared.isReady, Bool.and_eq_true] at h
  exact everReady_of_ready hr h.1.1

theorem open_of_isReady (hr : m.Reaches st) (h : st.shared.isReady = true) :
    st.shared.outboundQueue.closed = false ∧ st.shared.callbackQueue.closed = false := by
  have hs := view_sound hr
  simp only [Shared.isReady, Bool.and_eq_true, Bool.not_eq_true'] at h
  refine ⟨?_, ?_⟩ <;> refine Bool.eq_false_iff.mpr fun hc => ?_
  · have := hs.stopping_of_outboundClosed hc
    simp [State.view, h.1.2] at this
  · have := hs.stopping_of_callbackClosed hc
    simp [State.view, h.1.2] at this

/-- A sender that has found the service ready (`A`) finds its queue open: nobody can close it before
the sender gives the lock back. -/
theorem stays_open {A : Proc P → Bool} {C : Shared → Bool} {L : Ledger P} (hL : L ∈ locks)
    (hheld : ∀ p, A p = true → L.held p = 1) (hcall : ∀ c : Call, A c.thread.proc = false)
    (hnew : ∀ u : Thread P, u ∈ [{ proc := .submission .recv }, { proc := .reinjection .recv },
      { proc := .listener true }] → A u.proc = false)
    (hworld : ∀ s s', C ((machine m).owned s s') = C s)
    (hready : ∀ st : State P, m.Reaches st → st.shared.isReady = true → C st.shared = false)
    (hstep : ∀ s (t : Thread P) ch r, t.step m s ch = some r →
      (A r.thread.proc = true → (A t.proc = true ∨ s.isReady = true) ∧ C r.shared = C s) ∧
      (L.held t.proc ≠ 1 → C r.shared = C s)) (hr : m.Reaches st) {i : ℕ}
    (hi : st.threads[i]? = some t) : A t.proc = true →
      C st.shared = false ∧ st.shared.everReady = true := by
  refine Machine.threads_invariant ?_ (fun _ _ _ _ _ h => h) ?_ ?_ ?_ ?_ hr hi
  · intro st c _ ha
    cases (hcall c).symm.trans ha
  · intro st w s' i t _ ih _
    rw [hworld]
    exact ih
  · intro st i ch t r hmv ih ha
    obtain ⟨hbefore, hsame⟩ := (hstep _ _ _ _ hmv.step).1 ha
    have hst : C st.shared = false ∧ st.shared.everReady = true := by
      rcases hbefore with ht | ht
      · exact ih i t hmv.thread ht
      · exact ⟨hready st hmv.runs ht, everReady_of_isReady hmv.runs ht⟩
    exact ⟨hsame.trans hst.1, everReady_mono hmv.step hst.2⟩
  · intro st i ch t r j u hmv hji hj ih ha
    have hg : L.held t.proc ≠ 1 := fun hg =>
      hji (oneInLock hmv.runs hL hj hmv.thread (hheld _ ha) hg)
    exact ⟨((hstep _ _ _ _ hmv.step).2 hg).trans (ih ha).1, everReady_mono hmv.step (ih ha).2⟩
  · intro st i ch t r j u hmv _ hu ha
    cases (hnew u (by simpa using mem_launched hmv.step hu)).symm.trans ha

/-- **An admitted `Submit` finds `outboundQueue` open.** -/
theorem outbound_open (hr : m.Reaches st) {i : ℕ}
    (hi : st.threads[i]? = some t) : admitted t.proc = true →
      st.shared.outboundQueue.closed = false ∧ st.shared.everReady = true := by
  refine stays_open (C := fun s => s.outboundQueue.closed) (L := gateLedger) (by simp [locks])
    (fun p => holdsGate_of_admitted) (fun c => by cases c <;> rfl) (by simp) (fun _ _ => rfl)
    (fun st hr h => (open_of_isReady hr h).1)
    (fun s t ch r h => ⟨fun ha => ⟨step_admitted h ha, ?_⟩, (step_closed h).1⟩) hr hi
  rcases quiet_or_lifecycle h with hq | ⟨pc, r', -, -, rfl⟩
  · exact hq.outboundClosed
  · cases ha

/-- **An accepting callback finds `callbackQueue` open.** -/
theorem callback_open (hr : m.Reaches st) {i : ℕ}
    (hi : st.threads[i]? = some t) : accepting t.proc = true →
      st.shared.callbackQueue.closed = false ∧ st.shared.everReady = true := by
  refine stays_open (C := fun s => s.callbackQueue.closed) (L := callbackMuLedger)
    (by simp [locks]) (fun p => holdsCallbackMu_of_accepting) (fun c => by cases c <;> rfl) (by simp)
    (fun _ _ => rfl) (fun st hr h => (open_of_isReady hr h).2)
    (fun s t ch r h => ⟨fun ha => ⟨step_accepting h ha, ?_⟩, (step_closed h).2⟩) hr hi
  rcases quiet_or_lifecycle h with hq | ⟨pc, r', -, -, rfl⟩
  · exact hq.callbackClosed
  · cases ha

/-! ### No panics -/

/-- The ways in which a step could take the process down. -/
theorem Thread.step_crashed (h : t.step m s ch = some r) (hc : s.crashed = false)
    (hr : r.shared.crashed = true) :
    (admitted t.proc = true ∧ s.outboundQueue.closed = true) ∨
    (accepting t.proc = true ∧ s.callbackQueue.closed = true) ∨
    (∃ ret, t.proc = .lifecycle (.teardown ret .closeOutbound) ∧ s.outboundQueue.closed = true) ∨
    (∃ ret, t.proc = .lifecycle (.teardown ret .closeCallback) ∧ s.callbackQueue.closed = true) ∨
    (holdsCallbackMu t.proc = 1 ∧ s.callbackMu = false) ∨
    (holdsLifecycleMu t.proc = 1 ∧ s.lifecycleMu = false) := by
  cases stepped h <;> rename_i hm <;> cases hm
  case submit.sendClosed hq => exact .inl ⟨rfl, hq⟩
  case serve.sendClosed hq => exact .inr (.inl ⟨rfl, hq⟩)
  case serve.unlocked hmu => exact .inr (.inr (.inr (.inr (.inl ⟨rfl, hmu⟩))))
  case lifecycle.outboundClosed ret hq => exact .inr (.inr (.inl ⟨ret, rfl, hq⟩))
  case lifecycle.callbackClosed ret hq => exact .inr (.inr (.inr (.inl ⟨ret, rfl, hq⟩)))
  case lifecycle.callbackUnlocked hmu => exact .inr (.inr (.inr (.inr (.inl ⟨rfl, hmu⟩))))
  case lifecycle.unlocked hmu => exact .inr (.inr (.inr (.inr (.inr ⟨rfl, hmu⟩))))
  all_goals cases hc.symm.trans hr

/-- A goroutine inside a mutex finds it locked. -/
theorem locked_of_holds {L : Ledger P} (hL : L ∈ locks) {mu : Shared → Bool}
    (hmu : ∀ s, L.books s = taken (mu s)) (hr : m.Reaches st) {i : ℕ} (hi : st.threads[i]? = some t)
    (ht : L.held t.proc = 1) : mu st.shared = true := by
  have hle := held_le hr (mem_ledgers_of_mem_locks hL) (locks_held_nonneg L hL) hi
  rw [ht, hmu] at hle
  cases h : mu st.shared
  · simp [h] at hle
  · rfl

/-- **No goroutine ever panics**: no send on a closed queue, no second close, no mutex unlocked
twice. -/
theorem not_crashed (hr : m.Reaches st) : st.shared.crashed = false := by
  refine Machine.invariant rfl (fun _ _ _ ih => ih)
    (fun _ _ _ _ ih _ => ih) ?_ hr
  rintro st i ch t r ⟨hreach, -, -, hi, hstep⟩ ih
  refine Bool.eq_false_iff.mpr fun hcr => ?_
  rcases step_crashed hstep ih hcr with
    ⟨ha, hc⟩ | ⟨ha, hc⟩ | ⟨ret, hp, hc⟩ | ⟨ret, hp, hc⟩ | ⟨hh, hmu⟩ | ⟨hh, hmu⟩
  · simp [(outbound_open hreach hi ha).1] at hc
  · simp [(callback_open hreach hi ha).1] at hc
  iterate 2
    · have := ((life hreach).of_held i t hi (by simp [Ledger.Holds, lifecycleMuLedger, hp])) _ hp
      simp [View.Held, State.view, hc] at this
  · cases hmu.symm.trans (locked_of_holds (L := callbackMuLedger) (by simp [locks]) (fun _ => rfl)
      hreach hi hh)
  · cases hmu.symm.trans (locked_of_holds (L := lifecycleMuLedger) (by simp [locks]) (fun _ => rfl)
      hreach hi hh)

/-! ### What is reported when -/

/-- `outboundQueue` was closed. -/
@[simp] def Event.isOutboundClosed : Event P → Bool
  | .outboundClosed => true
  | _ => false

/-- `callbackQueue` was closed. -/
@[simp] def Event.isCallbackClosed : Event P → Bool
  | .callbackClosed => true
  | _ => false

/-- A `Submit` sent on `outboundQueue`. -/
@[simp] def Event.isEnqueued : Event P → Bool
  | .enqueued _ => true
  | _ => false

/-- A `Submit` returned true. -/
@[simp] def Event.isSubmitted : Event P → Bool
  | .submitReturned (some _) => true
  | _ => false

/-- A callback was sent on `callbackQueue`. -/
@[simp] def Event.isCallbackEnqueued : Event P → Bool
  | .callbackEnqueued _ => true
  | _ => false

/-- An `acceptCallback` returned true. -/
@[simp] def Event.isCallbackAccepted : Event P → Bool
  | .callbackReturned _ true => true
  | _ => false

/-- A step reports at most one event. -/
theorem Thread.step_events_length (h : t.step m s ch = some r) : r.events.length ≤ 1 := by
  cases stepped h <;> rename_i hr <;> cases hr
  all_goals first | exact Nat.zero_le _ | exact le_rfl

/-- Only an admitted sender reports that something was sent or accepted. -/
theorem Thread.step_sends (h : t.step m s ch = some r) {e : Event P} (he : e ∈ r.events) :
    ((e.isEnqueued || e.isSubmitted) = true → admitted t.proc = true) ∧
    ((e.isCallbackEnqueued || e.isCallbackAccepted) = true → accepting t.proc = true) := by
  cases stepped h <;> rename_i hr <;> cases hr
  case submit.leave o hg =>
    cases mem_singleton.mp he
    cases o <;> simp
  all_goals first | cases he; done | cases mem_singleton.mp he; simp

/-- Closing a queue is reported. -/
theorem Thread.step_closes (h : t.step m s ch = some r) :
    s.outboundQueue.closed.toNat + r.events.countP isOutboundClosed =
      r.shared.outboundQueue.closed.toNat ∧
    s.callbackQueue.closed.toNat + r.events.countP isCallbackClosed =
      r.shared.callbackQueue.closed.toNat := by
  cases stepped h <;> rename_i hr <;> cases hr
  case submit.enqueue hc => simp [hc]
  case serve.enqueue hc => simp [hc]
  case lifecycle.closeOutbound hc => simp [hc]
  case lifecycle.closeCallback hc => simp [hc]
  all_goals exact ⟨rfl, rfl⟩

/-- A queue is closed exactly if its closing has been reported, and then once. -/
theorem count_closed (hr : m.Reaches st) :
    st.count isOutboundClosed = st.shared.outboundQueue.closed.toNat ∧
    st.count isCallbackClosed = st.shared.callbackQueue.closed.toNat := by
  refine Machine.invariant ⟨rfl, rfl⟩ (fun _ _ _ ih => ih) (fun _ _ _ _ ih _ => ih) ?_ hr
  rintro st i ch t r ⟨-, -, -, -, hstep⟩ ih
  rw [State.count_move, State.count_move, ih.1, ih.2]
  exact step_closes hstep

/-- In what has been observed, no `q` comes after a `p`. -/
def State.NeverAfter (st : State P) (p q : Event P → Bool) : Prop :=
  CometBFT.NeverAfter (fun e : ℕ × Event P => p e.2 = true) (fun e => q e.2 = true) st.trace

theorem closed_of_count_pos (hr : m.Reaches st) :
    (0 < st.count isOutboundClosed → st.shared.outboundQueue.closed = true) ∧
    (0 < st.count isCallbackClosed → st.shared.callbackQueue.closed = true) := by
  obtain ⟨h₁, h₂⟩ := count_closed hr
  rw [h₁, h₂]
  constructor <;> intro h
  · cases hc : st.shared.outboundQueue.closed
    · simp [hc] at h
    · rfl
  · cases hc : st.shared.callbackQueue.closed
    · simp [hc] at h
    · rfl

/-- Once `outboundQueue` is closed, a step neither sends on it nor returns true from `Submit`; once
`callbackQueue` is closed, it neither sends on that nor accepts a callback. -/
theorem not_sent_of_closed {i : ℕ} (h : Moves m st i ch t r) {e : Event P} (he : e ∈ r.events) :
    (st.shared.outboundQueue.closed = true → (e.isEnqueued || e.isSubmitted) = false) ∧
      (st.shared.callbackQueue.closed = true →
        (e.isCallbackEnqueued || e.isCallbackAccepted) = false) := by
  constructor <;> intro hc <;> refine Bool.eq_false_iff.mpr fun hs => ?_
  · rw [(outbound_open h.runs h.thread ((step_sends h.step he).1 hs)).1] at hc
    cases hc
  · rw [(callback_open h.runs h.thread ((step_sends h.step he).2 hs)).1] at hc
    cases hc

def sampleID : ID := replicate 40 97

def samplePeer : ID := replicate 40 98

/-- A service with room for one message in each direction, on the vote channel only. -/
def sample : Service Unit where
  limits := ⟨1, 100, 1, 100, 1000, 1, 1⟩
  localID := sampleID
  registry := fun c =>
    if c = voteChannel then some ⟨10, fun b => if b = [7] then some () else none, true⟩ else none
  native := ⟨fun _ => .vote, fun _ => .ok true, fun _ => true⟩
  decodeControllerMessage := fun body =>
    if body = [1] then
      some ⟨samplePeer, sampleID, [1, voteChannel, 0, 0, 0, 1, 7], ascii "Vote",
        messageID samplePeer sampleID 0⟩
    else none
  limitFirst := fun _ => true

/-- Goroutine `i` takes an ordinary step. -/
def go (i : ℕ) : Action := .run i .go

def startRun : List Action :=
  [.call .start, go 0, go 0, go 0, .run 0 (.status 200), go 0, go 0]

def submitRun : List Action :=
  .call (.submit ⟨samplePeer, voteChannel, .vote, [7], .blocking⟩) :: replicate 9 (go 4)

def postRun : List Action := [go 1, go 1, go 1, .run 1 (.status 200), go 1]

def stopRun : List Action :=
  .call .stop :: replicate 10 (go 5) ++ [go 1, go 1, go 2, go 2] ++ replicate 4 (go 5)

end CometBFT.Mediation
