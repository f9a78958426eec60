import CometBFT.Mediation.Safety

/-!
# The two queues are first in, first out

What has been sent on a queue is what has been received from it, by its worker or by the shutdown
drain, followed by what is still in it. Order, loss and duplication of messages are read off this
one law. A queue that is closed and empty stays so.

## Main results

* `outbound_fifo`, `callback_fifo` — sent = received ++ queued
* `outbound_stays_empty`, `callback_stays_empty` — a closed and empty queue stays empty
-/

namespace CometBFT.Mediation

open List Event Thread State Goroutines

variable {P : Type*} {m : Service P} {s : Shared} {ch : Choice}

/-! ### Sequences of observations -/

/-- The observations of one kind, in order. -/
def State.obs {β : Type*} (st : State P) (f : Event P → Option β) : List β :=
  st.trace.filterMap fun e => f e.2

theorem State.obs_move {β : Type*} (st : State P) (f : Event P → Option β) (i : ℕ)
    (r : Effect P) : (st.move i r).obs f = st.obs f ++ r.events.filterMap f := by
  simp [obs, Config.move, filterMap_append, filterMap_map]

variable {st : State P}

/-- Events are reported by goroutines that exist. -/
theorem trace_lt (hr : m.Reaches st) :
    ∀ i e, (i, e) ∈ st.trace → i < st.threads.length := by
  refine Machine.invariant (by simp [start]) ?_ (fun _ _ _ _ ih _ => ih) ?_ hr
  · intro st c _ ih i e he
    have := ih i e he
    simp only [length_append]
    omega
  · rintro st j ch t r ⟨-, -, -, hj, -⟩ ih i e he
    have hlen : st.threads.length ≤ (st.move j r).threads.length := by simp [Config.move]
    rcases mem_append.mp he with he | he
    · exact (ih i e he).trans_le hlen
    · obtain ⟨e', -, heq⟩ := mem_map.mp he
      cases heq
      exact ((List.getElem?_eq_some_iff.mp hj).1).trans_le hlen

/-- The events of goroutine `i`. -/
def State.eventsOf (st : State P) (i : ℕ) : List (Event P) :=
  (st.trace.filter fun e => e.1 = i).map Prod.snd

variable {i : ℕ}

theorem State.mem_eventsOf {e : Event P} :
    e ∈ st.eventsOf i ↔ (i, e) ∈ st.trace := by
  simp [eventsOf]

theorem State.eventsOf_move_self (st : State P) (i : ℕ) (r : Effect P) :
    (st.move i r).eventsOf i = st.eventsOf i ++ r.events := by
  simp [eventsOf, Config.move, filter_append, filter_map, Function.comp_def]

theorem State.eventsOf_move_ne (st : State P) {j : ℕ} (h : j ≠ i) (r : Effect P) :
    (st.move i r).eventsOf j = st.eventsOf j := by
  simp [eventsOf, Config.move, filter_append, filter_map, Function.comp_def,
    h.symm]

theorem eventsOf_eq_nil (hr : m.Reaches st) (hi : st.threads.length ≤ i) :
    st.eventsOf i = [] := by
  refine eq_nil_iff_forall_not_mem.mpr fun e he => ?_
  have := trace_lt hr i e (mem_eventsOf.mp he)
  omega

/-- **The log rule.** What is true of a goroutine and its own events when it starts, and is kept by
its own steps, is true in every reachable state: nobody else writes its log. The steps may rely on
what is known of the shared record. -/
theorem log_invariant_of {J : Shared → Prop} {L : Proc P → List (Event P) → Prop}
    (hJ : ∀ st : State P, m.Reaches st → J st.shared) (hcall : ∀ c : Call, L c.thread.proc [])
    (hnew : ∀ p ∈ [Proc.submission .recv, .reinjection .recv, .listener true], L p [])
    (hstep : ∀ s (t : Thread P) ch r evs, J s → t.step m s ch = some r → L t.proc evs →
      L r.thread.proc (evs ++ r.events)) (hr : m.Reaches st) {t : Thread P}
    (hi : st.threads[i]? = some t) : L t.proc (st.eventsOf i) := by
  refine Machine.threads_invariant ?_ (fun _ _ _ _ _ h => h) (fun _ _ _ _ _ _ h _ => h) ?_ ?_ ?_ hr hi
  · intro st c hreach
    have : eventsOf st st.threads.length = [] := eventsOf_eq_nil hreach le_rfl
    exact this ▸ hcall c
  · intro st i ch t r hmv ih
    rw [eventsOf_move_self]
    exact hstep _ _ _ _ _ (hJ st hmv.runs) hmv.step (ih i t hmv.thread)
  · intro st i ch t r j u _ hji _ ih
    rw [eventsOf_move_ne st hji]
    exact ih
  · intro st i ch t r j u hmv hlen hu
    have hi : i < st.threads.length := (List.getElem?_eq_some_iff.mp hmv.thread).1
    rw [eventsOf_move_ne st (by omega), eventsOf_eq_nil hmv.runs hlen]
    rcases mem_launched hmv.step hu with rfl | rfl | rfl <;> exact hnew _ (by simp)

theorem log_invariant {L : Proc P → List (Event P) → Prop} (hcall : ∀ c : Call, L c.thread.proc [])
    (hnew : ∀ p ∈ [Proc.submission .recv, .reinjection .recv, .listener true], L p [])
    (hstep : ∀ s (t : Thread P) ch r evs, t.step m s ch = some r → L t.proc evs →
      L r.thread.proc (evs ++ r.events)) (hr : m.Reaches st) {t : Thread P}
    (hi : st.threads[i]? = some t) : L t.proc (st.eventsOf i) :=
  log_invariant_of (J := fun _ => True) (fun _ _ => trivial) hcall hnew
    (fun s t ch r evs _ => hstep s t ch r evs) hr hi

/-- Events of one kind that all come from goroutine `i`. -/
theorem obs_eq_eventsOf {β : Type*} {f : Event P → Option β}
    (h : ∀ j e, (j, e) ∈ st.trace → f e ≠ none → j = i) :
    st.obs f = (st.eventsOf i).filterMap f := by
  unfold obs eventsOf
  rw [filterMap_map, filterMap_filter]
  refine filterMap_congr fun e he => ?_
  by_cases hi : e.1 = i
  · simp [hi]
  · have : f e.2 = none := by
      by_contra hne
      exact hi (h e.1 e.2 he hne)
    simp [hi, this]

variable {t : Thread P} {r : Effect P}

/-- A goroutine runs the same function throughout. -/
theorem Thread.step_procRole (h : t.step m s ch = some r) : r.thread.proc.role = t.proc.role := by
  cases stepped h <;> rfl

/-- An event of a function is reported by a goroutine that runs it. -/
theorem reporter_role (hr : m.Reaches st) :
    ∀ i e, (i, e) ∈ st.trace → e.reportedBy .fatal = false →
      ∃ t, st.threads[i]? = some t ∧ e.reportedBy t.proc.role = true := by
  refine Machine.invariant (by simp [start]) ?_
    (fun _ _ _ _ ih _ => ih) ?_ hr
  · intro st c _ ih i e he hf
    obtain ⟨t, ht, hrole⟩ := ih i e he hf
    exact ⟨t, List.getElem?_append_left (List.getElem?_eq_some_iff.mp ht).1 ▸ ht, hrole⟩
  · rintro st j ch t r ⟨-, -, -, hj, hstep⟩ ih i e he hf
    rcases mem_append.mp he with he | he
    · obtain ⟨u, hu, hrole⟩ := ih i e he hf
      by_cases hij : i = j
      · subst hij
        obtain rfl : t = u := Option.some.inj (hj.symm.trans hu)
        exact ⟨r.thread, Pool.getElem?_move_self _ hj, by rw [step_procRole hstep]; exact hrole⟩
      · exact ⟨u, Pool.getElem?_move_ne _ hij hu, hrole⟩
    · obtain ⟨e', he', heq⟩ := mem_map.mp he
      cases heq
      have hrep := step_reports hstep e he'
      refine ⟨r.thread, Pool.getElem?_move_self _ hj, ?_⟩
      rw [step_procRole hstep]
      unfold role at hrep
      split at hrep
      · rw [hf] at hrep
        cases hrep
      · exact hrep

namespace Event

/-- What was sent on `outboundQueue`. -/
@[simp] def outboundSent : Event P → Option OutboundItem
  | .enqueued i => some i
  | _ => none

/-- What was received from `outboundQueue`. -/
@[simp] def outboundReceived : Event P → Option OutboundItem
  | .outboundTaken i | .outboundDrained i => some i
  | _ => none

/-- What was sent on `callbackQueue`. -/
@[simp] def callbackSent : Event P → Option ReinjectionItem
  | .callbackEnqueued i => some i
  | _ => none

/-- What was received from `callbackQueue`. -/
@[simp] def callbackReceived : Event P → Option ReinjectionItem
  | .callbackTaken i | .callbackDrained i => some i
  | _ => none

end Event

/-! ### The law for one step -/

/-- What a step puts into the queues and takes out of them is what it reports. -/
structure Fifo (s s' : Shared) (evs : List (Event P)) : Prop where
  outbound : s.outboundQueue.buf ++ evs.filterMap outboundSent =
    evs.filterMap outboundReceived ++ s'.outboundQueue.buf
  callback : s.callbackQueue.buf ++ evs.filterMap callbackSent =
    evs.filterMap callbackReceived ++ s'.callbackQueue.buf

/-- A step that leaves the contents of the queues alone and reports nothing about them. -/
theorem Fifo.of_eq {s' : Shared} {evs : List (Event P)}
    (ho : s'.outboundQueue.buf = s.outboundQueue.buf)
    (hc : s'.callbackQueue.buf = s.callbackQueue.buf)
    (h : ∀ e ∈ evs, e.outboundSent = none ∧ e.outboundReceived = none ∧ e.callbackSent = none ∧
      e.callbackReceived = none) : Fifo s s' evs := by
  have hnil : ∀ {β : Type} (f : Event P → Option β), (∀ e ∈ evs, f e = none) →
      evs.filterMap f = [] := fun f hf => filterMap_eq_nil_iff.mpr hf
  constructor
  · rw [hnil _ fun e he => (h e he).1, hnil _ fun e he => (h e he).2.1, ho, append_nil,
      nil_append]
  · rw [hnil _ fun e he => (h e he).2.2.1, hnil _ fun e he => (h e he).2.2.2, hc,
      append_nil, nil_append]

theorem Thread.step_fifo (h : t.step m s ch = some r) :
    Fifo s r.shared r.events := by
  cases stepped h <;> rename_i hr <;> cases hr
  -- a send
  case submit.enqueue | serve.enqueue =>
    exact ⟨by simp [filterMap_cons], by simp [filterMap_cons]⟩
  -- a receive
  case submission.recv hb | reinjection.recv hb | lifecycle.drainOutbound hb |
      lifecycle.drainCallback hb =>
    exact ⟨by simp [hb, filterMap_cons], by simp [hb, filterMap_cons]⟩
  all_goals exact .of_eq rfl rfl (by simp [Result.crash])

/-! ### The law for runs -/

/-- **The queues are first in, first out.** -/
theorem queues_fifo (hr : m.Reaches st) :
    st.obs outboundSent = st.obs outboundReceived ++ st.shared.outboundQueue.buf ∧
    st.obs callbackSent = st.obs callbackReceived ++ st.shared.callbackQueue.buf := by
  refine Machine.invariant ⟨rfl, rfl⟩ (fun _ _ _ ih => ih) (fun _ _ _ _ ih _ => ih) ?_ hr
  rintro st i ch t r ⟨-, -, -, -, hstep⟩ ih
  have hf := step_fifo hstep
  simp only [obs_move, Config.move_shared, ih.1, ih.2, append_assoc, hf.outbound,
    hf.callback, and_self]

theorem outbound_fifo (hr : m.Reaches st) :
    st.obs outboundSent = st.obs outboundReceived ++ st.shared.outboundQueue.buf :=
  (queues_fifo hr).1

theorem callback_fifo (hr : m.Reaches st) :
    st.obs callbackSent = st.obs callbackReceived ++ st.shared.callbackQueue.buf :=
  (queues_fifo hr).2

/-- A closed queue stays closed. -/
theorem closed_stays (h : Moves m st i ch t r) :
    (st.shared.outboundQueue.closed = true → r.shared.outboundQueue.closed = true) ∧
    (st.shared.callbackQueue.closed = true → r.shared.callbackQueue.closed = true) := by
  obtain ⟨h₁, h₂⟩ := count_closed h.runs
  have hpos := closed_of_count_pos h.runs'
  rw [count_move, count_move, h₁, h₂] at hpos
  exact ⟨fun hc => hpos.1 (by simp [hc]), fun hc => hpos.2 (by simp [hc])⟩

/-- A closed and empty `outboundQueue` stays empty, and nothing more is received from it. -/
theorem outbound_stays_empty (h : Moves m st i ch t r) (hc : st.shared.outboundQueue.closed = true)
    (hb : st.shared.outboundQueue.buf = []) :
    r.shared.outboundQueue.buf = [] ∧ r.events.filterMap outboundReceived = [] := by
  have hsent : r.events.filterMap outboundSent = [] := by
    refine filterMap_eq_nil_iff.mpr fun e he => ?_
    have := (not_sent_of_closed h he).1 hc
    cases e <;> simp at this ⊢
  have := (step_fifo h.step).outbound
  rw [hb, hsent, append_nil] at this
  exact (append_eq_nil_iff.mp this.symm).symm

/-- A closed and empty `callbackQueue` stays empty, and nothing more is received from it. -/
theorem callback_stays_empty (h : Moves m st i ch t r) (hc : st.shared.callbackQueue.closed = true)
    (hb : st.shared.callbackQueue.buf = []) :
    r.shared.callbackQueue.buf = [] ∧ r.events.filterMap callbackReceived = [] := by
  have hsent : r.events.filterMap callbackSent = [] := by
    refine filterMap_eq_nil_iff.mpr fun e he => ?_
    have := (not_sent_of_closed h he).2 hc
    cases e <;> simp at this ⊢
  have := (step_fifo h.step).callback
  rw [hb, hsent, append_nil] at this
  exact (append_eq_nil_iff.mp this.symm).symm

end CometBFT.Mediation
