import CometBFT.Mediation.Queues

/-!
# Admission of outbound messages

A `Submit` is inside the gate from its admission to its return, so the calls that return true do
so in the order in which they took the gate, each has put its message into the queue by then, and
the counters of `nextID` are those of the messages accepted so far. A call that returns false has
neither enqueued a message nor used up an ID.

## Main results

* `admission` — order, acceptance and numbering, a lock invariant of the gate
* `nothing_spent` — what a `Submit` that returned false has not done
-/

namespace CometBFT.Mediation

open List Thread Event State

variable {P : Type*} {m : Service P} {s : Shared} {ch : Choice}

/-! ### Messages accepted and calls that returned -/

/-- The messages enqueued so far, in order. -/
def State.accepted (st : State P) : List ControllerMessage :=
  (st.obs outboundSent).map OutboundItem.message

/-- The message of a `Submit` that returned true. -/
@[simp] def Event.submitted : Event P → Option ControllerMessage
  | .submitReturned r => r
  | _ => none

@[simp] def Event.isGateTaken : Event P → Bool
  | .gateTaken => true
  | _ => false

/-- The goroutines that reported an event of a kind, in order. -/
def State.callers (st : State P) (p : Event P → Bool) : List ℕ :=
  (st.trace.filter fun e => p e.2).map Prod.fst

theorem State.callers_move (st : State P) (p : Event P → Bool) (i : ℕ) (r : Effect P) :
    (st.move i r).callers p = st.callers p ++ (r.events.filter p).map fun _ => i := by
  simp [callers, Goroutines.Config.move, filter_append, filter_map, Function.comp_def]

/-- The message that a `Submit` has numbered and not yet enqueued. -/
@[simp] def numberedMsg : Proc P → List ControllerMessage
  | .submit _ (.enqueue msg) => [msg]
  | _ => []

/-- The message that a `Submit` has enqueued and not yet returned with. -/
@[simp] def enqueuedMsg : Proc P → List ControllerMessage
  | .submit _ (.leave (some msg)) => [msg]
  | _ => []

/-- The IDs of the messages to a destination. -/
def idsTo (d : ID) (acc : List ControllerMessage) : List Bytes :=
  (acc.filter fun msg => msg.To = d).map ControllerMessage.ID

theorem idsTo_append (d : ID) (acc acc' : List ControllerMessage) :
    idsTo d (acc ++ acc') = idsTo d acc ++ idsTo d acc' := by
  simp [idsTo]

/-- The counters are those of the messages `acc`: to each destination they are numbered from zero
without a gap, and the counter is the next number. -/
def Service.Numbered (m : Service P) (counters : ID → Option ℕ) (acc : List ControllerMessage) :
    Prop :=
  ∀ d, idsTo d acc = (range ((counters d).getD 0)).map (messageID m.localID d)

/-- `nextID` issues the number that comes next. -/
theorem Service.Numbered.nextID {d : ID} {s' : Shared} {id : Bytes} {acc : List ControllerMessage}
    {M : ControllerMessage} (hn : m.Numbered s.counters acc)
    (h : m.nextID s d = .ok (s', id)) (hto : M.To = d) (hid : M.ID = id) :
    m.Numbered s'.counters (acc ++ [M]) := by
  have hs' : s'.counters = Function.update s.counters d (some ((s.counters d).getD 0 + 1)) ∧
      id = messageID m.localID d ((s.counters d).getD 0) := by
    unfold Service.nextID at h
    split at h <;> rename_i hc <;> split at h <;> cases h <;> simp [hc]
  obtain ⟨hcount, rfl⟩ := hs'
  intro d'
  rw [idsTo_append, hn d', hcount]
  by_cases hd : d' = d
  · subst hd
    simp [idsTo, hto, hid, range_succ]
  · have hne : M.To ≠ d' := fun h => hd (h.symm.trans hto)
    simp [idsTo, hne, Function.update_of_ne hd]

/-! ### What a step does to them -/

/-- A goroutine outside the gate neither numbers nor enqueues nor returns a message; if it enters,
it reports just that. -/
structure Outside (s s' : Shared) (p' : Proc P) (evs : List (Event P)) : Prop where
  counters : s'.counters = s.counters
  sent : evs.filterMap outboundSent = []
  submitted : evs.filterMap submitted = []
  enters : holdsGate p' = 1 → evs.filter isGateTaken = [.gateTaken] ∧
    numberedMsg p' = [] ∧ enqueuedMsg p' = []
  stays : holdsGate p' ≠ 1 → evs.filter isGateTaken = []

variable {t : Thread P} {r : Effect P}

theorem Thread.step_outside (h : t.step m s ch = some r) (ht : holdsGate t.proc ≠ 1) :
    Outside s r.shared r.thread.proc r.events := by
  cases stepped h <;> rename_i hr
  case fatal => cases hr <;> exact ⟨rfl, rfl, rfl, fun h => absurd h ht, fun _ => rfl⟩
  all_goals cases hr <;> try exact absurd rfl ht
  -- the two places where the gate is taken
  case submit.gate | lifecycle.takeGate =>
    exact ⟨rfl, rfl, rfl, fun _ => ⟨rfl, rfl, rfl⟩, fun h => absurd rfl h⟩
  all_goals exact ⟨rfl, rfl, rfl, nofun, fun _ => rfl⟩

/-- A goroutine inside the gate takes nothing from it; what it numbers, enqueues and returns goes
from one list to the next, and it leaves only with empty hands. -/
structure Inside (m : Service P) (s s' : Shared) (p p' : Proc P) (evs : List (Event P)) :
    Prop where
  taken : evs.filter isGateTaken = []
  numbered : ∀ acc, m.Numbered s.counters (acc ++ numberedMsg p) →
    m.Numbered s'.counters (acc ++ (evs.filterMap outboundSent).map OutboundItem.message ++
      numberedMsg p')
  enqueued : ∀ acc sub, acc = sub ++ enqueuedMsg p →
    acc ++ (evs.filterMap outboundSent).map OutboundItem.message =
      sub ++ evs.filterMap submitted ++ enqueuedMsg p'
  stays : holdsGate p' = 1 → evs.filterMap submitted = []
  leaves : holdsGate p' ≠ 1 → numberedMsg p' = [] ∧ enqueuedMsg p' = []

/-- A step inside the gate that has nothing to do with messages. -/
theorem Inside.of_eq {s' : Shared} {p p' : Proc P} {evs : List (Event P)}
    (hs : s'.counters = s.counters) (hn : numberedMsg p' = numberedMsg p)
    (hq : enqueuedMsg p' = enqueuedMsg p)
    (he : ∀ e ∈ evs, e.outboundSent = none ∧ e.submitted = none ∧ e.isGateTaken = false)
    (hl : holdsGate p' ≠ 1 → numberedMsg p' = [] ∧ enqueuedMsg p' = []) :
    Inside m s s' p p' evs := by
  have hsent : evs.filterMap outboundSent = [] :=
    filterMap_eq_nil_iff.mpr fun e h => (he e h).1
  have hsub : evs.filterMap submitted = [] :=
    filterMap_eq_nil_iff.mpr fun e h => (he e h).2.1
  refine ⟨filter_eq_nil_iff.mpr fun e h => ?_, fun acc h => ?_, fun acc sub h => ?_,
    fun _ => hsub, hl⟩
  · rw [(he e h).2.2]
    exact nofun
  · rw [hsent, hn, hs]
    simpa using h
  · rw [hsent, hsub, hq]
    simpa using h

theorem Thread.step_inside (h : t.step m s ch = some r) (ht : holdsGate t.proc = 1) :
    Inside m s r.shared t.proc r.thread.proc r.events := by
  cases stepped h <;> rename_i hr
  case fatal => cases hr <;> exact .of_eq rfl rfl rfl (by simp) fun h => absurd ht h
  all_goals cases hr <;> try cases ht
  case submit.number hn =>
    refine ⟨rfl, fun acc hacc => ?_, fun acc sub hacc => ?_, fun _ => rfl, fun h => absurd rfl h⟩
    · have hacc : m.Numbered s.counters acc := by simpa using hacc
      simpa [filterMap_cons, after] using hacc.nextID hn rfl rfl
    · simpa [filterMap_cons, after] using hacc
  case submit.enqueue =>
    refine ⟨rfl, fun acc hacc => ?_, fun acc sub hacc => ?_, fun _ => rfl, fun h => absurd rfl h⟩ <;>
      simpa [filterMap_cons, after] using hacc
  case submit.leave o _ =>
    refine ⟨rfl, fun acc hacc => ?_, fun acc sub hacc => ?_, nofun, fun _ => ⟨rfl, rfl⟩⟩ <;>
      cases o <;> simpa [filterMap_cons, after] using hacc
  case lifecycle.putGate => exact .of_eq rfl rfl rfl (by simp) fun _ => ⟨rfl, rfl⟩
  all_goals exact .of_eq rfl rfl rfl (by simp [Result.crash]) fun h => absurd rfl h

/-! ### The invariant of the gate -/

theorem State.accepted_move (st : State P) (i : ℕ) (r : Effect P) :
    (st.move i r).accepted =
      st.accepted ++ (r.events.filterMap outboundSent).map OutboundItem.message := by
  simp [accepted, obs_move]

theorem Event.isSubmitted_eq (e : Event P) : e.isSubmitted = e.submitted.isSome := by
  cases e
  case submitReturned r => cases r <;> rfl
  all_goals rfl

theorem filter_isSubmitted {evs : List (Event P)} (h : evs.filterMap submitted = []) :
    evs.filter isSubmitted = [] := by
  refine filter_eq_nil_iff.mpr fun e he => ?_
  rw [e.isSubmitted_eq, filterMap_eq_nil_iff.mp h e he]
  exact nofun

/-- Nobody is inside the gate: the messages accepted are those of the calls that returned true, in
the order in which these took the gate. -/
structure State.GateFree (m : Service P) (st : State P) : Prop where
  numbered : m.Numbered st.shared.counters st.accepted
  enqueued : st.accepted = st.obs submitted
  order : (st.callers isSubmitted).Sublist (st.callers isGateTaken)

/-- Goroutine `i` is inside the gate, and was the last to take it. -/
structure State.GateHeld (m : Service P) (st : State P) (i : ℕ) (t : Thread P) : Prop where
  numbered : m.Numbered st.shared.counters (st.accepted ++ numberedMsg t.proc)
  enqueued : st.accepted = st.obs submitted ++ enqueuedMsg t.proc
  order : ∃ G, st.callers isGateTaken = G ++ [i] ∧
    (st.callers isSubmitted).Sublist G

variable {st : State P} {i : ℕ}

/-- A step outside the gate changes none of the lists of a goroutine inside. -/
theorem Outside.move (h : Outside st.shared r.shared r.thread.proc r.events) :
    (st.move i r).shared.counters = st.shared.counters ∧
    (st.move i r).accepted = st.accepted ∧
    (st.move i r).obs Event.submitted = st.obs Event.submitted ∧
    (st.move i r).callers Event.isSubmitted = st.callers Event.isSubmitted := by
  refine ⟨h.counters, ?_, ?_, ?_⟩
  · rw [accepted_move, h.sent, map_nil, append_nil]
  · rw [obs_move, h.submitted, append_nil]
  · rw [callers_move, filter_isSubmitted h.submitted, map_nil, append_nil]

section

variable (h : st.GateHeld m i t) (hin : Inside m st.shared r.shared t.proc r.thread.proc r.events)

include h hin

/-- The goroutine inside the gate takes a step and stays. -/
theorem State.GateHeld.stay (hr : holdsGate r.thread.proc = 1) : (st.move i r).GateHeld m i r.thread := by
  have hsub := hin.stays hr
  refine ⟨?_, ?_, ?_⟩
  · rw [accepted_move]
    exact hin.numbered _ h.numbered
  · rw [accepted_move, obs_move]
    exact hin.enqueued _ _ h.enqueued
  · rw [callers_move, callers_move, hin.taken, filter_isSubmitted hsub]
    simpa using h.order

/-- The goroutine inside the gate leaves it, and with it the call returns. -/
theorem State.GateHeld.leave (hlen : r.events.length ≤ 1) (hr : holdsGate r.thread.proc ≠ 1) :
    (st.move i r).GateFree m := by
  obtain ⟨hn, hq⟩ := hin.leaves hr
  refine ⟨?_, ?_, ?_⟩
  · have := hin.numbered _ h.numbered
    rwa [hn, append_nil, ← accepted_move st i r] at this
  · have := hin.enqueued _ _ h.enqueued
    rwa [hq, append_nil, ← accepted_move st i r, ← obs_move st _ i r] at this
  · obtain ⟨G, hG, hsub⟩ := h.order
    rw [callers_move, callers_move, hin.taken, hG, map_nil, append_nil]
    refine List.Sublist.append hsub ?_
    -- at most one event, so at most one more caller, which is `i`
    match r.events, hlen with
    | [], _ => exact nil_sublist _
    | [e], _ => exact filter_sublist.map fun _ => i

end

/-- **The invariant of the gate**, in every reachable state. -/
theorem admission (hr : m.Reaches st) :
    Pool.Guarded gateLedger.Holds st.threads (st.GateFree m) (st.GateHeld m) := by
  refine (gateLedger.lock m (by simp [locks])).invariant rfl (F := GateFree m) (H := GateHeld m)
    ?_ ?_ ?_ ?_ hr
  · exact ⟨fun d => by simp [Goroutines.start, accepted, obs, idsTo], rfl, .slnil⟩
  · exact fun st c _ => ⟨fun h => ⟨h.1, h.2, h.3⟩, fun i t h => ⟨h.1, h.2, h.3⟩⟩
  · exact fun _ _ _ _ _ => ⟨fun h => ⟨h.1, h.2, h.3⟩, fun i t h => ⟨h.1, h.2, h.3⟩⟩
  · rintro st i ch t r ⟨-, -, -, -, hstep⟩
    have hlen := step_events_length hstep
    refine ⟨fun ht hp h => h.stay (step_inside hstep ht) hp,
      fun ht hp h => h.leave (step_inside hstep ht) hlen hp, fun ht hp h => ?_,
      fun ht hp => ⟨fun h => ?_, fun j u _ _ h => ?_⟩⟩ <;>
      have hout := step_outside hstep ht <;>
      obtain ⟨h₁, h₂, h₃, h₄⟩ := hout.move (i := i)
    · obtain ⟨htaken, hn, hq⟩ := hout.enters hp
      refine ⟨by rw [h₁, h₂, hn, append_nil]; exact h.numbered,
        by rw [h₂, h₃, hq, append_nil]; exact h.enqueued, ?_⟩
      refine ⟨callers st isGateTaken, ?_, by rw [h₄]; exact h.order⟩
      rw [callers_move, htaken]
      rfl
    all_goals
      refine ⟨by rw [h₁, h₂]; exact h.numbered, by rw [h₂, h₃]; exact h.enqueued, ?_⟩
      rw [h₄, callers_move, hout.stays hp, map_nil, append_nil]
      exact h.order

/-- **Acceptance, order and numbering** in every reachable state, whoever is inside the gate: the
messages accepted are those of the calls that returned true, followed by that of a call which is
about to; the calls returned in gate order; and the IDs to each destination count from zero. -/
theorem accepted_in_order (hr : m.Reaches st) :
    (∃ pending, st.accepted = st.obs submitted ++ pending ∧
      (pending = [] ∨ ∃ msg, pending = [msg] ∧
        ∃ t ∈ st.threads, enqueuedMsg t.proc = [msg])) ∧
    (st.callers isSubmitted).Sublist (st.callers isGateTaken) ∧
    ∀ d, ∃ k, idsTo d st.accepted = (range k).map (messageID m.localID d) := by
  rcases (admission hr).free_or_held with h | ⟨i, t, hi, -, h⟩
  · exact ⟨⟨[], by rw [append_nil]; exact h.enqueued, .inl rfl⟩, h.order,
      fun d => ⟨_, h.numbered d⟩⟩
  · obtain ⟨G, hG, hsub⟩ := h.order
    refine ⟨⟨_, h.enqueued, ?_⟩, ?_, fun d => ?_⟩
    · rcases t with ⟨f, p⟩
      rcases hmsg : enqueuedMsg p with _ | ⟨msg, _ | ⟨msg', rest⟩⟩
      · exact .inl rfl
      · exact .inr ⟨msg, rfl, _, mem_of_getElem? hi, hmsg⟩
      · unfold enqueuedMsg at hmsg
        split at hmsg <;> simp at hmsg
    · rw [hG]
      exact hsub.trans (sublist_append_left G [i])
    · -- the accepted IDs are a first part of the numbers issued
      have hpre : idsTo d st.accepted <+:
          (range ((st.shared.counters d).getD 0)).map (messageID m.localID d) := by
        rw [← h.numbered d, idsTo_append]
        exact prefix_append _ _
      refine ⟨(idsTo d st.accepted).length, ?_⟩
      have hle : (idsTo d st.accepted).length ≤ (st.shared.counters d).getD 0 := by
        simpa using hpre.length_le
      conv_lhs => rw [prefix_iff_eq_take.mp hpre]
      rw [← map_take, take_range, Nat.min_eq_left hle]

/-! ### Calls that return false -/

/-- An ID was issued or a message enqueued. -/
@[simp] def Event.spends : Event P → Bool
  | .numbered _ | .enqueued _ => true
  | _ => false

/-- `Submit` returned false. -/
@[simp] def Event.isRefused : Event P → Bool
  | .submitReturned none => true
  | _ => false

/-- A `Submit` past the point where it takes an ID. -/
@[simp] def committed : Proc P → Bool
  | .submit _ (.enqueue _) | .submit _ (.leave (some _)) | .submit _ .done => true
  | _ => false

/-- A call of `Submit` that has returned. -/
@[simp] def submitDone : Proc P → Bool
  | .submit _ .done => true
  | _ => false

/-- What a step reports in the way of spending and refusing. -/
structure Spends (p p' : Proc P) (evs : List (Event P)) : Prop where
  committed : committed p = true → committed p' = true
  done : submitDone p = true → evs.any spends = false ∧ submitDone p' = true
  spends : evs.any spends = true → Mediation.committed p' = true ∧ evs.any isRefused = false
  refuses : evs.any isRefused = true → Mediation.committed p = false ∧ submitDone p' = true

theorem Thread.step_spends (h : t.step m s ch = some r) :
    Spends t.proc r.thread.proc r.events := by
  cases stepped h <;> rename_i hr
  case fatal => cases hr <;> exact ⟨id, fun h => ⟨rfl, h⟩, nofun, nofun⟩
  all_goals cases hr
  case submit.leave o _ =>
    cases o
    · exact ⟨nofun, nofun, nofun, fun _ => ⟨rfl, rfl⟩⟩
    · exact ⟨id, nofun, nofun, nofun⟩
  case submit.fail | submit.giveUp => exact ⟨nofun, nofun, nofun, fun _ => ⟨rfl, rfl⟩⟩
  case submit.number => exact ⟨nofun, nofun, fun _ => ⟨rfl, rfl⟩, nofun⟩
  case submit.enqueue => exact ⟨id, nofun, fun _ => ⟨rfl, rfl⟩, nofun⟩
  case submit.sendClosed => exact ⟨id, nofun, nofun, nofun⟩
  all_goals exact ⟨nofun, nofun, nofun, nofun⟩

/-- What a call of `Submit` has reported so far, against where it stands. -/
structure Spent (p : Proc P) (evs : List (Event P)) : Prop where
  committed : evs.any spends = true → Mediation.committed p = true
  done : evs.any isRefused = true → submitDone p = true
  refused : evs.any isRefused = true → evs.any spends = false

theorem Spent.nil (p : Proc P) : Spent p [] := ⟨nofun, nofun, nofun⟩

theorem Spent.step {p p' : Proc P} {evs evs' : List (Event P)} (h : Spent p evs)
    (hs : Spends p p' evs') : Spent p' (evs ++ evs') := by
  refine ⟨?_, ?_, ?_⟩ <;> simp only [any_append, Bool.or_eq_true, Bool.or_eq_false_iff]
  · exact fun hsp => hsp.elim (fun hsp => hs.committed (h.committed hsp)) fun hsp =>
      (hs.spends hsp).1
  · exact fun hrf => hrf.elim (fun hrf => (hs.done (h.done hrf)).2) fun hrf => (hs.refuses hrf).2
  · rintro (hrf | hrf)
    · exact ⟨h.refused hrf, (hs.done (h.done hrf)).1⟩
    · -- it has not been committed, so it has spent nothing before, and it spends nothing now
      have hc := (hs.refuses hrf).1
      refine ⟨Bool.eq_false_iff.mpr fun hsp => ?_, Bool.eq_false_iff.mpr fun hsp => ?_⟩
      · rw [h.committed hsp] at hc
        cases hc
      · rw [(hs.spends hsp).2] at hrf
        cases hrf

theorem spent (hr : m.Reaches st)
    (hi : st.threads[i]? = some t) : Spent t.proc (st.eventsOf i) :=
  log_invariant (fun _ => .nil _) (fun _ _ => .nil _)
    (fun _ _ _ _ _ h hs => hs.step (step_spends h)) hr hi

/-- **A `Submit` that returned false has enqueued nothing and used up no ID.** -/
theorem nothing_spent (hr : m.Reaches st) (hi : (i, submitReturned none) ∈ st.trace)
    {e : Event P} (he : (i, e) ∈ st.trace) :
    e.spends = false := by
  have hlt := trace_lt hr i _ hi
  have hs := spent hr (getElem?_eq_getElem hlt)
  have hrf : (st.eventsOf i).any isRefused = true :=
    any_eq_true.mpr ⟨_, mem_eventsOf.mpr hi, rfl⟩
  refine Bool.eq_false_iff.mpr fun hsp => ?_
  have hany : (st.eventsOf i).any spends = true :=
    any_eq_true.mpr ⟨_, mem_eventsOf.mpr he, hsp⟩
  rw [hs.refused hrf] at hany
  cases hany

end CometBFT.Mediation
