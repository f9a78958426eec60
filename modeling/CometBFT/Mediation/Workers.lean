import CometBFT.Mediation.Shutdown

/-!
# The two workers

Each worker is launched once, takes items from its queue, and stops when the queue is closed and
empty or when an item fails, in which case it has called `fatal`. The shutdown drain only takes
what the workers have left, after they have stopped. So what a worker has taken is a first part of
what was sent, and if it stopped without a failure it has taken everything.

## Main results

* `outbound_received`, `callback_received` — the drain comes after the worker
* `failed_worker` — a worker that stopped early has called `fatal`
* `outbound_finished`, `callback_finished` — a worker that stopped by itself has taken everything
-/

namespace CometBFT.Mediation

open List Event Thread Goroutines

variable {P : Type*} {m : Service P} {s : Shared} {ch : Choice}

/-! ### The drain comes last -/

namespace Event

/-- Taken from `outboundQueue` by the worker. -/
@[simp] def outboundTaken? : Event P → Option OutboundItem
  | .outboundTaken i => some i
  | _ => none

/-- Taken from `outboundQueue` by the shutdown drain. -/
@[simp] def outboundDrained? : Event P → Option OutboundItem
  | .outboundDrained i => some i
  | _ => none

/-- Taken from `callbackQueue` by the worker. -/
@[simp] def callbackTaken? : Event P → Option ReinjectionItem
  | .callbackTaken i => some i
  | _ => none

/-- Taken from `callbackQueue` by the shutdown drain. -/
@[simp] def callbackDrained? : Event P → Option ReinjectionItem
  | .callbackDrained i => some i
  | _ => none

/-- Something was drained. -/
@[simp] def isDrained : Event P → Bool
  | .outboundDrained _ | .callbackDrained _ => true
  | _ => false

end Event

variable {t : Thread P} {r : Effect P}

/-- Draining is done by a teardown that has seen the workers stop. -/
theorem Thread.step_drained (h : t.step m s ch = some r) (he : r.events.any isDrained = true) :
    ∃ ret pc, t.proc = .lifecycle (.teardown ret pc) ∧ pc.draining = true ∧
      r.shared.workers = s.workers := by
  cases stepped h <;> rename_i hr <;> cases hr
  case lifecycle.drainOutbound => exact ⟨_, _, rfl, rfl, rfl⟩
  case lifecycle.drainCallback => exact ⟨_, _, rfl, rfl, rfl⟩
  all_goals cases he

variable {st : State P}

/-- Once something has been drained, the workers have stopped for good. -/
theorem workers_of_drained (hr : m.Reaches st) :
    0 < st.count isDrained →
      st.shared.workers = 0 ∧ st.shared.outboundQueue.closed = true := by
  refine Machine.invariant (by simp [start, State.count]) (fun _ _ _ ih => ih)
    (fun _ _ _ _ ih _ => ih) ?_ hr
  intro st i ch t r hmv ih hpos
  rcases Nat.eq_zero_or_pos (State.count st isDrained) with h0 | hold
  · rw [State.count_move, h0, Nat.zero_add] at hpos
    obtain ⟨e, hmem, hd⟩ := countP_pos_iff.mp hpos
    obtain ⟨ret, pc, hp, hdr, hsame⟩ :=
      step_drained hmv.step (any_eq_true.mpr ⟨e, hmem, hd⟩)
    obtain ⟨-, -, -, -, -, hclosed, -, hw⟩ := held_teardown hmv.runs hmv.thread hp
    have hc : st.shared.outboundQueue.closed = true := by
      refine (show _ = pc.outboundClosed from hclosed).trans ?_
      cases pc <;> first | rfl | cases hdr
    exact ⟨hsame.trans (hw hdr), (closed_stays hmv).1 hc⟩
  · obtain ⟨hw, hc⟩ := ih hold
    exact ⟨workers_stay_zero hmv hc hw, (closed_stays hmv).1 hc⟩

/-- While a worker is working, nothing has been drained. -/
theorem not_drained_of_working (hr : m.Reaches st) {i : ℕ} (hi : st.threads[i]? = some t)
    (ht : isWorking t.proc = 1) :
    st.count isDrained = 0 := by
  refine Nat.eq_zero_of_not_pos fun hpos => ?_
  have := isWorking_eq_zero hr (workers_of_drained hr hpos).1 hi
  omega

/-- Only a working worker takes a step in that role. -/
theorem Thread.step_working (h : t.step m s ch = some r)
    (hrole : t.role = .submission ∨ t.role = .reinjection) : isWorking t.proc = 1 := by
  cases stepped h <;> rename_i hr
  case submission | reinjection => cases hr <;> rfl
  all_goals simp [role, Proc.role] at hrole

section

variable {β : Type*} {R T D : Event P → Option β}

theorem obs_drained_eq_nil (hD : ∀ e, e.isDrained = false → D e = none)
    (h0 : st.count isDrained = 0) : st.obs D = [] := by
  refine filterMap_eq_nil_iff.mpr fun e he => hD e.2 ?_
  have := countP_eq_zero.mp h0 e he
  simpa using this

/-- **The drain comes after the worker**: with `T` what a worker takes and `D` what is drained,
what is received is the one followed by the other. -/
theorem received_eq (hR : ∀ e, R e = (T e).or (D e))
    (hT : ∀ e role, T e ≠ none → e.reportedBy role = true →
      role = .submission ∨ role = .reinjection) (hD : ∀ e, e.isDrained = false → D e = none)
    (hr : m.Reaches st) :
    st.obs R = st.obs T ++ st.obs D := by
  refine Machine.invariant rfl
    (fun _ _ _ ih => ih) (fun _ _ _ _ ih _ => ih) ?_ hr
  rintro st i ch t r ⟨hreach, -, -, hi, hstep⟩ ih
  rw [State.obs_move, State.obs_move, State.obs_move, ih]
  match hevs : r.events, step_events_length hstep with
  | [], _ => simp
  | [e], _ =>
    cases ht : T e with
    | none => simp [filterMap_cons, hR e, ht]
    | some b =>
      -- a worker is at work, so nothing has been drained yet
      have hrep := step_reports hstep e (by simp [hevs])
      have hw := step_working hstep (hT e _ (by simp [ht]) hrep)
      rw [obs_drained_eq_nil hD (not_drained_of_working hreach hi hw)]
      have hde : D e = none := by
        refine hD e (Bool.eq_false_iff.mpr fun hdr => ?_)
        rcases hT e _ (by simp [ht]) hrep with h | h <;> rw [h] at hrep <;> cases e <;>
          simp [reportedBy] at hdr hrep
      simp [hR e, ht, hde]

end

theorem outbound_received (hr : m.Reaches st) :
    st.obs outboundReceived =
      st.obs outboundTaken? ++ st.obs outboundDrained? := by
  refine received_eq (fun e => by cases e <;> rfl) (fun e role ht hrole => ?_)
    (fun e h => by cases e <;> first | rfl | cases h) hr
  cases e <;> first | exact absurd rfl ht | exact .inl (of_decide_eq_true hrole)

theorem callback_received (hr : m.Reaches st) :
    st.obs callbackReceived =
      st.obs callbackTaken? ++ st.obs callbackDrained? := by
  refine received_eq (fun e => by cases e <;> rfl) (fun e role ht hrole => ?_)
    (fun e h => by cases e <;> first | rfl | cases h) hr
  cases e <;> first | exact absurd rfl ht | exact .inr (of_decide_eq_true hrole)

/-! ### There is one worker of each kind -/

/-- `f` observes only what goroutines in one role report. -/
def OnlyBy {β : Type} (ρ : Role) (f : Event P → Option β) : Prop :=
  ∀ e role, f e ≠ none → (e.reportedBy role = true ↔ role = ρ)

/-- A goroutine in another role adds nothing to it. -/
theorem OnlyBy.silent {β : Type} {ρ : Role} {f : Event P → Option β} (hf : OnlyBy ρ f)
    (h : t.step m s ch = some r) (hrole : t.role ≠ ρ) :
    r.events.filterMap f = [] := by
  refine filterMap_eq_nil_iff.mpr fun e he => ?_
  by_contra hne
  exact hrole ((hf e _ hne).mp (step_reports h e he))

theorem isSubmission_eq_one {p : Proc P} : isSubmission p = 1 ↔ p.role = .submission := by
  cases p <;> simp [Proc.role]

theorem isReinjection_eq_one {p : Proc P} : isReinjection p = 1 ↔ p.role = .reinjection := by
  cases p <;> simp [Proc.role]

theorem isSubmission_nonneg (p : Proc P) : 0 ≤ isSubmission p := by
  unfold isSubmission
  split <;> decide

theorem isReinjection_nonneg (p : Proc P) : 0 ≤ isReinjection p := by
  unfold isReinjection
  split <;> decide

/-- Goroutines in the same worker role are the same goroutine. -/
theorem worker_unique (hr : m.Reaches st) {ρ : Role} (hρ : ρ = .submission ∨ ρ = .reinjection) :
    Pool.AtMostOne (fun t : Thread P => t.proc.role = ρ) st.threads := by
  have hs := view_sound hr
  rcases hρ with rfl | rfl
  · simp only [← isSubmission_eq_one]
    exact Pool.atMostOne_of_total (f := fun t : Thread P => isSubmission t.proc)
      (fun t => isSubmission_nonneg t.proc) hs.submissions_le_one
  · simp only [← isReinjection_eq_one]
    exact Pool.atMostOne_of_total (f := fun t : Thread P => isReinjection t.proc)
      (fun t => isReinjection_nonneg t.proc) (hs.reinjections.trans_le hs.submissions_le_one)

/-- **What only a worker reports is in the log of the one there is**, or nowhere. -/
theorem obs_worker (hr : m.Reaches st) {R : Role} (hR : R = .submission ∨ R = .reinjection) :
    (∃ (i : ℕ) (t : Thread P), st.threads[i]? = some t ∧ t.proc.role = R ∧
      ∀ {β : Type} (f : Event P → Option β), OnlyBy R f →
        st.obs f = (st.eventsOf i).filterMap f) ∨
    ((∀ t ∈ st.threads, t.proc.role ≠ R) ∧
      ∀ {β : Type} (f : Event P → Option β), OnlyBy R f → st.obs f = []) := by
  have hrole : ∀ {β : Type} (f : Event P → Option β), OnlyBy R f → ∀ j e, (j, e) ∈ st.trace →
      f e ≠ none → ∃ t, st.threads[j]? = some t ∧ t.proc.role = R := by
    intro β f hf j e he hne
    have hfat : e.reportedBy .fatal = false := Bool.eq_false_iff.mpr fun h => by
      rw [← (hf e .fatal hne).mp h] at hR
      rcases hR with hR | hR <;> cases hR
    obtain ⟨t, ht, hrep⟩ := reporter_role hr j e he hfat
    exact ⟨t, ht, (hf e _ hne).mp hrep⟩
  by_cases hnone : ∀ t ∈ st.threads, t.proc.role ≠ R
  · refine .inr ⟨hnone, fun f hf => filterMap_eq_nil_iff.mpr fun e he => ?_⟩
    by_contra hne
    obtain ⟨t, ht, h1⟩ := hrole f hf e.1 e.2 he hne
    exact hnone t (mem_of_getElem? ht) h1
  · push Not at hnone
    obtain ⟨t, hmem, ht⟩ := hnone
    obtain ⟨i, hi⟩ := getElem?_of_mem hmem
    refine .inl ⟨i, t, hi, ht, fun f hf => obs_eq_eventsOf fun j e he hfe => ?_⟩
    obtain ⟨u, hu, h1⟩ := hrole f hf j e he hfe
    exact worker_unique hr hR hu hi h1 ht

/-! ### How a worker stops -/

/-- A worker that stopped, or is about to, because an item failed. -/
@[simp] def failed : Proc P → Bool
  | .submission (.exit false) | .submission (.stopped false) | .reinjection (.exit false)
  | .reinjection (.stopped false) => true
  | _ => false

/-- A worker fails by calling `fatal`. -/
theorem Thread.step_failed (h : t.step m s ch = some r) (hf : failed r.thread.proc = true) :
    failed t.proc = true ∨ isWorking r.thread.proc = 1 ∧ ∃ e, r.thread.fatal = some (.record e) := by
  cases stepped h <;> rename_i hr
  case fatal => exact .inl hf
  all_goals cases hr
  case submission.fatal | reinjection.fatal => exact .inr ⟨rfl, _, rfl⟩
  case submission.exit ok _ | reinjection.exit ok _ => cases ok <;> first | exact .inl rfl | cases hf
  all_goals cases hf

/-- **A worker that stopped early has called `fatal`.** -/
theorem failed_worker (hr : m.Reaches st) {i : ℕ}
    (hi : st.threads[i]? = some t) : failed t.proc = true →
      st.shared.fatalErr.isSome = true ∨
      isWorking t.proc = 1 ∧ ∃ e, t.fatal = some (.record e) := by
  refine Machine.threads_invariant ?_ (fun _ _ _ _ _ h => h) (fun _ _ _ _ _ _ h _ => h) ?_ ?_ ?_ hr hi
  · intro st c _ hf
    cases c <;> cases hf
  · intro st i ch t r hmv ih hf
    have hstay : st.shared.fatalErr.isSome = true → r.shared.fatalErr.isSome = true := by
      intro hsome
      obtain ⟨e, he⟩ := Option.isSome_iff_exists.mp hsome
      rw [(step_fatalErr hmv.step he).1]
      rfl
    rcases step_failed hmv.step hf with ht | hraise
    · rcases ih i t hmv.thread ht with hsome | ⟨-, e, he⟩
      · exact .inl (hstay hsome)
      · left
        cases stepped hmv.step <;> cases he
        rename_i hx
        exact hx.record_isSome
    · exact .inr hraise
  · intro st i ch t r j u hmv _ _ ih hf
    refine (ih hf).imp (fun hsome => ?_) id
    obtain ⟨e, he⟩ := Option.isSome_iff_exists.mp hsome
    rw [Goroutines.Config.move_shared, (step_fatalErr hmv.step he).1]
    rfl
  · intro st i ch t r j u hmv _ hu hf
    rcases mem_launched hmv.step hu with rfl | rfl | rfl <;> cases hf

/-- A worker that stopped, or is about to, because its queue was closed and empty. -/
@[simp] def outboundFinished : Proc P → Bool
  | .submission (.exit true) | .submission (.stopped true) => true
  | _ => false

@[simp] def callbackFinished : Proc P → Bool
  | .reinjection (.exit true) | .reinjection (.stopped true) => true
  | _ => false

theorem Thread.step_finished (h : t.step m s ch = some r) :
    (outboundFinished r.thread.proc = true → outboundFinished t.proc = true ∨
      isWorking t.proc = 1 ∧ s.outboundQueue.closed = true ∧ s.outboundQueue.buf = []) ∧
    (callbackFinished r.thread.proc = true → callbackFinished t.proc = true ∨
      isWorking t.proc = 1 ∧ s.callbackQueue.closed = true ∧ s.callbackQueue.buf = []) := by
  cases stepped h <;> rename_i hr
  case fatal => exact ⟨.inl, .inl⟩
  all_goals cases hr
  case submission.finish hb hc => exact ⟨fun _ => .inr ⟨rfl, hc, hb⟩, nofun⟩
  case reinjection.finish hb hc => exact ⟨nofun, fun _ => .inr ⟨rfl, hc, hb⟩⟩
  case submission.exit ok _ => cases ok <;> exact ⟨.inl, nofun⟩
  case reinjection.exit ok _ => cases ok <;> exact ⟨nofun, .inl⟩
  all_goals exact ⟨nofun, nofun⟩

/-- The queue `q` is closed and empty, and nothing of it has been left for the drain `D`. -/
structure State.Finished {β : Type*} (st : State P) (q : Shared → Chan β)
    (D : Event P → Option β) : Prop where
  closed : (q st.shared).closed = true
  empty : (q st.shared).buf = []
  drained : st.obs D = []

section

variable {β : Type*} {q : Shared → Chan β} {D : Event P → Option β} {F : Proc P → Bool}

/-- **A worker that stopped by itself has finished its queue**, where `F` is having stopped so. -/
theorem finished_worker
    (hq : ∀ st i ch t r, Moves m st i ch t r → (q st.shared).closed = true → (q st.shared).buf = [] →
      (q r.shared).closed = true ∧ (q r.shared).buf = [] ∧ r.events.filterMap D = [])
    (hworld : ∀ s s', q ((machine m).owned s s') = q s)
    (hD : ∀ e, e.isDrained = false → D e = none) (hcall : ∀ c : Call, F c.thread.proc = false)
    (hnew : ∀ p ∈ [Proc.submission .recv, .reinjection .recv, .listener true], F p = false)
    (hF : ∀ s (t : Thread P) ch r, t.step m s ch = some r → F r.thread.proc = true →
      F t.proc = true ∨ isWorking t.proc = 1 ∧ (q s).closed = true ∧ (q s).buf = [])
    (hr : m.Reaches st) {i : ℕ}
    (hi : st.threads[i]? = some t) : F t.proc = true → st.Finished q D := by
  have hmove : ∀ {st : State P} {i ch t r}, Moves m st i ch t r → st.Finished q D →
      (st.move i r).Finished q D := by
    intro st i ch t r hmv h
    obtain ⟨h₁, h₂, h₃⟩ := hq st i ch t r hmv h.closed h.empty
    exact ⟨h₁, h₂, by rw [State.obs_move, h.drained, h₃]; rfl⟩
  refine Machine.threads_invariant ?_ (fun _ _ _ _ _ h hf => ⟨(h hf).1, (h hf).2, (h hf).3⟩) ?_ ?_ ?_ ?_ hr hi
  · intro st c _ hf
    cases (hcall c).symm.trans hf
  · intro st _ s' i t _ ih _ hf
    have h := ih hf
    have hsame := hworld st.shared s'
    exact ⟨hsame ▸ h.closed, hsame ▸ h.empty, h.drained⟩
  · intro st i ch t r hmv ih hf
    refine hmove hmv ?_
    rcases hF _ _ _ _ hmv.step hf with ht | ⟨hw, hc, hb⟩
    · exact ih i t hmv.thread ht
    · exact ⟨hc, hb, obs_drained_eq_nil hD (not_drained_of_working hmv.runs hmv.thread hw)⟩
  · exact fun st i ch t r j u hmv _ _ ih hf => hmove hmv (ih hf)
  · intro st i ch t r j u hmv _ hu hf
    rcases mem_launched hmv.step hu with rfl | rfl | rfl <;> rw [hnew _ (by simp)] at hf <;>
      cases hf

end

/-- A submission worker that stopped by itself has taken everything that was ever sent. -/
theorem outbound_finished (hr : m.Reaches st) {i : ℕ} (hi : st.threads[i]? = some t)
    (hf : outboundFinished t.proc = true) :
    st.obs outboundTaken? = st.obs outboundSent := by
  have h : st.Finished Shared.outboundQueue outboundDrained? := by
    refine finished_worker (fun st i ch t r hmv hc hb => ?_) (fun _ _ => rfl)
      (fun e h => by cases e <;> first | rfl | cases h) (fun c => by cases c <;> rfl) (by simp)
      (fun s t ch r h => (step_finished h).1) hr hi hf
    obtain ⟨h₁, h₂⟩ := outbound_stays_empty hmv hc hb
    refine ⟨(closed_stays hmv).1 hc, h₁, filterMap_eq_nil_iff.mpr fun e he => ?_⟩
    have := filterMap_eq_nil_iff.mp h₂ e he
    cases e <;> simp at this ⊢
  rw [outbound_fifo hr, outbound_received hr, h.drained, h.empty, append_nil, append_nil]

/-- A reinjection worker that stopped by itself has taken everything that was ever sent. -/
theorem callback_finished (hr : m.Reaches st) {i : ℕ} (hi : st.threads[i]? = some t)
    (hf : callbackFinished t.proc = true) :
    st.obs callbackTaken? = st.obs callbackSent := by
  have h : st.Finished Shared.callbackQueue callbackDrained? := by
    refine finished_worker (fun st i ch t r hmv hc hb => ?_) (fun _ _ => rfl)
      (fun e h => by cases e <;> first | rfl | cases h) (fun c => by cases c <;> rfl) (by simp)
      (fun s t ch r h => (step_finished h).2) hr hi hf
    obtain ⟨h₁, h₂⟩ := callback_stays_empty hmv hc hb
    refine ⟨(closed_stays hmv).2 hc, h₁, filterMap_eq_nil_iff.mpr fun e he => ?_⟩
    have := filterMap_eq_nil_iff.mp h₂ e he
    cases e <;> simp at this ⊢
  rw [callback_fifo hr, callback_received hr, h.drained, h.empty, append_nil, append_nil]

end CometBFT.Mediation
