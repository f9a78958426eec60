import CometBFT.Mediation.Admission
import CometBFT.Mediation.Identity
import CometBFT.Mediation.Workers

/-!
# Submission of outbound messages

The submission worker posts the messages it takes one at a time and goes on to the next only after
a `2xx` answer. Its own log of events therefore determines what has been posted and what has been
answered at each program counter. Together with the order of admission this says that no message
is lost, duplicated, reordered or numbered wrongly without a fatal error, as long as the controller
sends no redirect: the client follows it, posting the message a second time, or taking the answer
to another request for the answer to the message.

## Main results

* `submission_log` — what the worker has taken, posted and had answered
* `submission_faithful` — the guarantees of the outbound path, and when redirects break them
* `redirect_breaks` — a message posted twice, and a message never answered
-/

namespace CometBFT.Mediation

open List Event SubmissionPc Goroutines

variable {P : Type*} {m : Service P} {s : Shared} {ch : Choice}

/-! ### The log of the worker -/

namespace Event

/-- The message of an item taken by the worker. -/
@[simp] def takenMessage : Event P → Option ControllerMessage
  | .outboundTaken i => some i.message
  | _ => none

/-- A message sent to the controller's `/message`. -/
@[simp] def postedMessage : Event P → Option ControllerMessage
  | .posted msg | .reposted msg => some msg
  | _ => none

/-- A message sent to `/message` for the first time. -/
@[simp] def firstPosted : Event P → Option ControllerMessage
  | .posted msg => some msg
  | _ => none

/-- A message whose exchange ended with a `2xx` answer, be it to another request. -/
@[simp] def endedMessage : Event P → Option ControllerMessage
  | .answered msg _ none => some msg
  | _ => none

/-- A message that got a `2xx` answer. -/
@[simp] def answeredMessage : Event P → Option ControllerMessage
  | .answered msg true none => some msg
  | _ => none

end Event

theorem onlyBy_taken : OnlyBy (P := P) .submission takenMessage := by
  intro e role h
  cases e <;> simp_all [reportedBy]

theorem onlyBy_firstPosted : OnlyBy (P := P) .submission firstPosted := by
  intro e role h
  cases e <;> simp_all [reportedBy]

theorem onlyBy_ended : OnlyBy (P := P) .submission endedMessage := by
  intro e role h
  cases e <;> simp_all [reportedBy]

/-- The messages taken, posted for the first time and done with by the worker, at each of its program
counters: it has posted and got rid of all it has taken, but for the one in hand. -/
def SubmissionPc.Log (taken posted ended : List ControllerMessage) : SubmissionPc → Prop
  | .recv | .exit true | .stopped true | .bytes _ none => posted = taken ∧ ended = taken
  | .slot i | .post i => taken = posted ++ [i.message] ∧ ended = posted
  | .answer i _ _ => posted = taken ∧ taken = ended ++ [i.message]
  | .bytes _ (some _) | .exit false | .stopped false => posted <+: taken

variable {taken posted ended : List ControllerMessage} {st : State P}

theorem SubmissionPc.Log.posted_isPart {pc : SubmissionPc} (h : pc.Log taken posted ended) :
    posted <+: taken := by
  unfold Log at h
  split at h
  all_goals first | exact h | exact h.1 ▸ prefix_rfl | exact h.1 ▸ prefix_append _ _

/-- One step of the worker keeps its log. -/
theorem SubmissionMoves.log {pc : SubmissionPc} {r : Result P SubmissionPc}
    (h : SubmissionMoves s ch pc r) (hl : pc.Log taken posted ended) :
    r.pc.Log (taken ++ r.events.filterMap takenMessage)
      (posted ++ r.events.filterMap firstPosted)
      (ended ++ r.events.filterMap endedMessage) := by
  have hpre := hl.posted_isPart
  cases h
  case answer i sent posting err =>
    obtain ⟨rfl, hans⟩ := hl
    cases err <;> simp [Log, filterMap_cons, hans]
  case redirect | repost => simpa [Log, filterMap_cons] using hl
  case fatal => simpa [Log] using hpre
  case noPost => simpa [Log] using hpre
  case exit ok _ => cases ok <;> simpa [Log] using hl
  all_goals
    obtain ⟨rfl, rfl⟩ := hl
    simp [Log, filterMap_cons]

/-- What is posted once more has been posted. -/
theorem SubmissionMoves.posted_of_reposted {pc : SubmissionPc} {r : Result P SubmissionPc}
    {evs : List (Event P)} {msg : ControllerMessage} (h : SubmissionMoves s ch pc r)
    (hl : pc.Log taken (evs.filterMap firstPosted) ended) (hmem : reposted msg ∈ r.events) :
    Event.posted msg ∈ evs := by
  cases h <;> simp at hmem
  obtain ⟨hposted, htaken⟩ := hl
  have hfirst : msg ∈ evs.filterMap firstPosted := by
    rw [hposted, htaken, hmem]
    exact mem_append_right _ (mem_singleton_self _)
  obtain ⟨e, he, hm⟩ := mem_filterMap.mp hfirst
  cases e <;> cases hm
  exact he

/-- **The log of the worker is in order** in every reachable state, and only what has been posted is
posted once more. -/
theorem submission_log (hr : m.Reaches st) {i : ℕ} {t : Thread P}
    (hi : st.threads[i]? = some t) : ∀ pc, t.proc = .submission pc →
      pc.Log ((st.eventsOf i).filterMap takenMessage)
        ((st.eventsOf i).filterMap firstPosted)
        ((st.eventsOf i).filterMap endedMessage) ∧
      ∀ msg, reposted msg ∈ st.eventsOf i → Event.posted msg ∈ st.eventsOf i := by
  refine log_invariant (L := fun p evs => ∀ pc, p = .submission pc →
    pc.Log (evs.filterMap takenMessage) (evs.filterMap firstPosted)
      (evs.filterMap endedMessage) ∧ ∀ msg, reposted msg ∈ evs → Event.posted msg ∈ evs)
    (fun c pc hp => ?_) (fun p hmem pc hp => ?_) (fun s t ch r evs h hl pc hp => ?_) hr hi
  · cases c <;> cases hp
  · subst hp
    simp only [mem_cons, Proc.submission.injEq, reduceCtorEq, not_mem_nil, or_false]
      at hmem
    subst hmem
    exact ⟨⟨rfl, rfl⟩, fun msg h => absurd h not_mem_nil⟩
  · simp only [filterMap_append]
    cases Thread.stepped h with
    | @fatal f p x hf =>
      obtain ⟨hlog, hre⟩ := hl pc hp
      rw [onlyBy_taken.silent h nofun, onlyBy_firstPosted.silent h nofun,
        onlyBy_ended.silent h nofun, append_nil, append_nil, append_nil]
      refine ⟨hlog, fun msg hmem => mem_append_left _ (hre msg ?_)⟩
      refine (mem_append.mp hmem).resolve_right fun hnew => ?_
      have := Thread.step_reports h _ hnew
      cases this
    | submission hr =>
      cases hp
      obtain ⟨hlog, hre⟩ := hl _ rfl
      refine ⟨hr.log hlog, fun msg hmem => ?_⟩
      rcases mem_append.mp hmem with hold | hnew
      · exact mem_append_left _ (hre msg hold)
      · exact mem_append_left _ (hr.posted_of_reposted hlog hnew)
    | _ => cases hp

/-! ### The outbound path -/

theorem obs_takenMessage (st : State P) :
    st.obs takenMessage = (st.obs outboundTaken?).map OutboundItem.message := by
  unfold State.obs
  rw [map_filterMap]
  refine filterMap_congr fun e _ => ?_
  cases e.2 <;> rfl

theorem submission_of_role {p : Proc P} (h : p.role = .submission) : ∃ pc, p = .submission pc := by
  cases p <;> first | exact ⟨_, rfl⟩ | cases h

/-- What has been posted for the first time is a first part of what has been accepted. -/
theorem posted_isPart (hr : m.Reaches st) :
    st.obs firstPosted <+: st.accepted := by
  have htaken : st.obs takenMessage <+: st.accepted := by
    rw [obs_takenMessage, State.accepted, outbound_fifo hr, outbound_received hr,
      append_assoc, map_append]
    exact prefix_append _ _
  refine List.IsPrefix.trans ?_ htaken
  rcases obs_worker hr (.inl rfl) with ⟨i, t, hi, hrole, hobs⟩ | ⟨-, hobs⟩
  · obtain ⟨pc, hp⟩ := submission_of_role hrole
    rw [hobs _ onlyBy_firstPosted, hobs _ onlyBy_taken]
    exact (submission_log hr hi pc hp).1.posted_isPart
  · rw [hobs _ onlyBy_firstPosted]
    exact nil_prefix

/-- Messages are accepted only once the service has been ready. -/
theorem everReady_of_accepted (hr : m.Reaches st) :
    st.accepted ≠ [] → st.shared.everReady = true := by
  refine Machine.invariant (by simp [start, State.accepted, State.obs]) (fun _ _ _ ih => ih)
    (fun _ _ _ _ ih _ => ih) ?_ hr
  rintro st i ch t r ⟨hreach, -, -, hi, hstep⟩ ih hne
  rw [State.accepted_move] at hne
  refine everReady_mono hstep ?_
  by_cases h : State.accepted st = []
  · rw [h, nil_append, ne_eq, map_eq_nil_iff, filterMap_eq_nil_iff] at hne
    push Not at hne
    obtain ⟨e, he, hsent⟩ := hne
    have hadm := (Thread.step_sends hstep he).1 (by cases e <;> simp at hsent ⊢)
    exact (outbound_open hreach hi hadm).2
  · exact ih h

/-- With both workers stopped and no fatal error, the worker is done with every accepted message. -/
theorem ended_all (hr : m.Reaches st) (hw : st.shared.workers = 0)
    (hf : st.shared.fatalErr = none) : st.obs endedMessage = st.accepted := by
  rcases obs_worker hr (.inl rfl) with ⟨i, t, hi, hrole, hobs⟩ | ⟨hnone, hobs⟩
  · obtain ⟨pc, hp⟩ := submission_of_role hrole
    have hidle := isWorking_eq_zero hr hw hi
    have hlog := (submission_log hr hi pc hp).1
    rw [hp] at hidle
    cases pc <;> simp at hidle
    rename_i ok
    cases ok with
    | false =>
      rcases failed_worker hr hi (by rw [hp]; rfl) with h | ⟨h, -⟩
      · rw [hf] at h
        cases h
      · rw [hp] at h
        cases h
    | true =>
      rw [State.accepted, ← outbound_finished hr hi (by rw [hp]; rfl), ← obs_takenMessage,
        hobs _ onlyBy_ended, hobs _ onlyBy_taken]
      exact hlog.2
  · rw [hobs _ onlyBy_ended]
    by_contra hne
    have hready := everReady_of_accepted hr (Ne.symm hne)
    have hone : Pool.total (fun t => isSubmission t.proc) st.threads = 1 :=
      (view_sound hr).launched_of_everReady hready
    have hzero : ∀ t ∈ st.threads, isSubmission t.proc = 0 := by
      intro t ht
      have := hnone t ht
      cases hp : t.proc <;> simp [hp, Proc.role] at this ⊢
    rw [Pool.total_eq_zero hzero] at hone
    cases hone

/-! ### Redirects -/

/-- Observations without repetition come from one event each. -/
theorem State.eq_of_obs_nodup {β : Type*} {f : Event P → Option β} (h : (st.obs f).Nodup)
    {e e' : ℕ × Event P} {b : β} (he : e ∈ st.trace) (he' : e' ∈ st.trace)
    (hf : f e.2 = some b) (hf' : f e'.2 = some b) : e = e' := by
  by_contra hne
  have hpair := pairwise_filterMap.mp h
  have : Std.Symm fun a a' : ℕ × Event P =>
      ∀ b, f a.2 = some b → ∀ b', f a'.2 = some b' → b ≠ b' :=
    ⟨fun a a' hab b hb b' hb' => (hab b' hb' b hb).symm⟩
  exact hpair.forall he he' hne b hf b hf' rfl

theorem accepted_nodup (hr : m.Reaches st) : st.accepted.Nodup := by
  obtain ⟨-, -, hids⟩ := accepted_in_order hr
  refine nodup_iff_count_le_one.mpr fun msg => ?_
  obtain ⟨k, hk⟩ := hids msg.To
  have hnodup : (idsTo msg.To st.accepted).Nodup :=
    hk ▸ nodup_range.map (messageID_injective m.localID msg.To)
  calc st.accepted.count msg
      = (st.accepted.filter fun x => x.To = msg.To).count msg := by
        rw [count_filter (by simp)]
    _ ≤ (idsTo msg.To st.accepted).count msg.ID := count_le_count_map
    _ ≤ 1 := nodup_iff_count_le_one.mp hnodup _

/-- What has been posted is a first part of what has been accepted, exactly if nothing has been
posted once more. -/
theorem posted_isPart_iff (hr : m.Reaches st) :
    st.obs postedMessage <+: st.accepted ↔ ∀ k msg, (k, reposted msg) ∉ st.trace := by
  constructor
  · intro hpart k msg hre
    obtain ⟨t, ht, hrole⟩ := reporter_role hr k _ hre rfl
    obtain ⟨pc, hp⟩ := submission_of_role (of_decide_eq_true hrole)
    have hpost := (submission_log hr ht pc hp).2 msg (State.mem_eventsOf.mpr hre)
    have hnodup := (accepted_nodup hr).sublist hpart.sublist
    cases State.eq_of_obs_nodup hnodup hre (State.mem_eventsOf.mp hpost) rfl rfl
  · intro hno
    have hfirst : st.obs postedMessage = st.obs firstPosted := by
      refine filterMap_congr fun e he => ?_
      obtain ⟨k, e⟩ := e
      cases e
      case reposted msg => exact absurd he (hno k msg)
      all_goals rfl
    exact hfirst ▸ posted_isPart hr

/-- With both workers stopped and no fatal error, every accepted message got a `2xx` answer, exactly
if no answer to another request was taken for one. -/
theorem answered_all_iff (hr : m.Reaches st) (hw : st.shared.workers = 0)
    (hf : st.shared.fatalErr = none) : st.obs answeredMessage = st.accepted ↔
      ∀ k msg, (k, answered msg false none) ∉ st.trace := by
  have hended := ended_all hr hw hf
  constructor
  · intro hall k msg hmem
    have hacc : msg ∈ st.accepted := hended ▸ mem_filterMap.mpr ⟨_, hmem, rfl⟩
    obtain ⟨⟨k', e⟩, he, hm⟩ := mem_filterMap.mp (hall ▸ hacc)
    have hend : endedMessage e = some msg := by
      cases e <;> simp_all
      split at hm <;> simp_all
    have hnodup : (st.obs endedMessage).Nodup := hended ▸ accepted_nodup hr
    cases State.eq_of_obs_nodup hnodup hmem he rfl hend
    cases hm
  · intro hno
    rw [← hended]
    refine filterMap_congr fun e he => ?_
    obtain ⟨k, e⟩ := e
    cases e
    case answered msg posting err =>
      cases err with
      | some err => cases posting <;> rfl
      | none =>
        cases posting
        · exact absurd he (hno k msg)
        · rfl
    all_goals rfl

/-- **No submission is lost, duplicated, reordered or numbered wrongly**, but for redirects. In every
run: what has been posted is a first part of what has been accepted, exactly if nothing was posted
once more after a redirect; what has been accepted is what the `Submit` calls that returned true
enqueued, followed by the message of one that is about to; these calls returned in the order in which
they took the gate; the IDs to each destination are `0, 1, 2, …` in this order; a `Submit` that
returned false enqueued nothing and took no ID; and once both workers have stopped, without a fatal
error every accepted message got a `2xx` answer, in order, exactly if no exchange was redirected
to a `GET` and ended with `2xx`. -/
theorem submission_faithful (m : Service P) {st : State P} (hr : m.Reaches st) :
    (st.obs postedMessage <+: st.accepted ↔ ∀ k msg, (k, reposted msg) ∉ st.trace) ∧
    (∃ pending, st.accepted = st.obs submitted ++ pending ∧
      (pending = [] ∨ ∃ msg, pending = [msg] ∧
        ∃ t ∈ st.threads, enqueuedMsg t.proc = [msg])) ∧
    (st.callers isSubmitted).Sublist (st.callers isGateTaken) ∧
    (∀ d, (∃ k, idsTo d st.accepted = (range k).map (messageID m.localID d)) ∧
      (idsTo d st.accepted).Nodup) ∧
    (∀ i, (i, submitReturned none) ∈ st.trace → ∀ e, (i, e) ∈ st.trace →
      e.spends = false) ∧
    (st.shared.workers = 0 → st.shared.fatalErr = none →
      (st.obs answeredMessage = st.accepted ↔
        ∀ k msg, (k, answered msg false none) ∉ st.trace)) := by
  obtain ⟨hacc, horder, hids⟩ := accepted_in_order hr
  refine ⟨posted_isPart_iff hr, hacc, horder, fun d => ⟨hids d, ?_⟩,
    fun i hi e he => nothing_spent hr hi he, answered_all_iff hr⟩
  obtain ⟨k, hk⟩ := hids d
  rw [hk]
  exact nodup_range.map (messageID_injective m.localID d)

theorem submission_faithful_sample :
    let st := sample.after (startRun ++ submitRun ++ postRun ++ stopRun)
    (st.accepted.map ControllerMessage.ID = [messageID sampleID samplePeer 0] ∧
      st.obs postedMessage = st.accepted ∧ st.shared.workers = 0 ∧
      st.shared.fatalErr = none) ∧
    (st.obs answeredMessage = st.accepted ↔
      ∀ k msg, (k, answered msg false none) ∉ st.trace) :=
  ⟨by decide, (submission_faithful sample (sample.reaches_after (by decide))).2.2.2.2.2
    (by decide) (by decide)⟩

/-- The worker's exchange, redirected once with this status to `/message` and then answered `200`. -/
def redirectRun (code : ℕ) : List Action :=
  [go 1, go 1, go 1, .run 1 (.redirect code true), .run 1 (.status 200), go 1]

/-- **A redirect breaks the guarantees.** After a 307 the one message accepted has been posted twice;
after a 302 the service stops without a fatal error, and no `POST` of the message got a `2xx` answer. -/
theorem redirect_breaks :
    (let run := startRun ++ submitRun ++ redirectRun 307 ++ stopRun
      let st := sample.after run
      (exec (next sample) init run).isSome = true ∧ st.accepted.length = 1 ∧
        (st.obs postedMessage).length = 2) ∧
    (let run := startRun ++ submitRun ++ redirectRun 302 ++ stopRun
      let st := sample.after run
      (exec (next sample) init run).isSome = true ∧ st.accepted.length = 1 ∧
        st.obs answeredMessage = [] ∧ st.shared.workers = 0 ∧ st.shared.fatalErr = none) := by
  decide

end CometBFT.Mediation
