import CometBFT.Mediation.Workers

/-!
# Reinjection of callbacks

Callbacks enter `callbackQueue` under `callbackMu`, in the order in which `acceptCallback` accepts
them, and the reinjection worker hands them one at a time to the Reactor of their channel. Before
each it looks the source peer up again, so the peer it names was registered and running then. It
does not hold the peer set while it calls the Reactor: a peer may go between the check and the call.

## Main results

* `accepted_callbacks` — acceptance order, and the answers given
* `reinjection_log` — what the worker has taken and handed on
* `attributed` — where the source and the message of a `Receive` come from
* `reinjection_faithful` — the guarantees of the inbound path
-/

namespace CometBFT.Mediation

open List Thread Event ReinjectionPc Goroutines

variable {P : Type*} {m : Service P} {s : Shared} {ch : Choice}

/-! ### Acceptance -/

/-- The item of an `acceptCallback` that returned true. -/
@[simp] def Event.callbackAccepted : Event P → Option ReinjectionItem
  | .callbackReturned i true => some i
  | _ => none

theorem onlyBy_callbackSent : OnlyBy (P := P) .serve callbackSent := by
  intro e role h
  cases e <;> simp_all [reportedBy]

/-- The item that an `acceptCallback` has enqueued and not yet returned with. -/
@[simp] def enqueuedItem : Proc P → List ReinjectionItem
  | .serve (.unlock i true) => [i]
  | _ => []

/-- What a step enqueues and accepts, as seen from `callbackMu`. -/
structure Accepts (p p' : Proc P) (evs : List (Event P)) : Prop where
  balance : enqueuedItem p ++ evs.filterMap callbackSent =
    evs.filterMap callbackAccepted ++ enqueuedItem p'
  outside : holdsCallbackMu p ≠ 1 → evs.filterMap callbackSent = [] ∧
    evs.filterMap callbackAccepted = []

theorem enqueuedItem_of_not_holds {p : Proc P} (h : holdsCallbackMu p ≠ 1) :
    enqueuedItem p = [] := by
  unfold enqueuedItem
  split
  · simp at h
  · rfl

variable {t : Thread P}

variable {r : Effect P} {st : State P} {j : ℕ} {i : ReinjectionItem}

theorem Thread.step_accepts (h : t.step m s ch = some r) :
    Accepts t.proc r.thread.proc r.events := by
  cases stepped h <;> rename_i hr <;> cases hr
  case serve.enqueue | serve.accept => exact ⟨rfl, fun ht => absurd rfl ht⟩
  all_goals exact ⟨append_nil _, fun _ => ⟨rfl, rfl⟩⟩

/-- **Acceptance order.** What has been enqueued is what calls of `acceptCallback` have accepted, in
this order, followed by the item of one that is about to return. -/
theorem accepted_callbacks (hr : m.Reaches st) :
    Pool.Guarded callbackMuLedger.Holds st.threads
      (st.obs callbackSent = st.obs callbackAccepted)
      fun _ t => st.obs callbackSent =
        st.obs callbackAccepted ++ enqueuedItem t.proc := by
  refine (callbackMuLedger.lock m (by simp [locks])).invariant rfl
    (F := fun st : State P => st.obs callbackSent = st.obs callbackAccepted)
    (H := fun (st : State P) _ t => st.obs callbackSent =
      st.obs callbackAccepted ++ enqueuedItem t.proc) rfl
    (fun _ _ _ => ⟨id, fun _ _ => id⟩) (fun _ _ _ _ _ => ⟨id, fun _ _ => id⟩) ?_ hr
  rintro (st : State P) i ch t r ⟨-, -, -, -, hstep⟩
  have ha := step_accepts hstep
  have hin : st.obs callbackSent = st.obs callbackAccepted ++ enqueuedItem t.proc →
      (st.move i r).obs callbackSent =
        (st.move i r).obs callbackAccepted ++ enqueuedItem r.thread.proc := by
    intro h
    rw [State.obs_move, State.obs_move, h, append_assoc, append_assoc, ha.balance]
  have hout : ¬ callbackMuLedger.Holds t →
      (st.move i r).obs callbackSent = st.obs callbackSent ∧
      (st.move i r).obs callbackAccepted = st.obs callbackAccepted := by
    intro ht
    obtain ⟨h₁, h₂⟩ := ha.outside ht
    rw [State.obs_move, State.obs_move, h₁, h₂, append_nil, append_nil]
    exact ⟨rfl, rfl⟩
  refine ⟨fun _ _ => hin, fun _ hp h => ?_, fun ht _ h => ?_, fun ht _ => ⟨fun h => ?_, ?_⟩⟩
  · have := hin h
    rwa [enqueuedItem_of_not_holds hp, append_nil] at this
  · refine hin ?_
    rw [enqueuedItem_of_not_holds ht, append_nil]
    exact h
  · rw [(hout ht).1, (hout ht).2]
    exact h
  · intro j u _ _ h
    rw [(hout ht).1, (hout ht).2]
    exact h

/-! ### The answers given -/

/-- `acceptCallback` returned true, or the handler answered. -/
@[simp] def Event.verdict : Event P → Option (Option Response)
  | .callbackReturned _ true => some none
  | .responded r => some (some r)
  | _ => none

theorem onlyBy_verdict : OnlyBy (P := P) .serve verdict := by
  intro e role h
  cases e
  case callbackReturned i ok => cases ok <;> simp_all [reportedBy]
  all_goals simp_all [reportedBy]

/-- What comes before an answer: acceptance, if the answer is `202`. -/
def Response.behind (a : Response) : List (Option Response) := if a = .accepted then [none] else []

namespace Response

variable {a b : Response}

theorem some_notMem_behind : some b ∉ a.behind := by
  unfold behind
  split <;> simp

/-- The answer that was given is `202` exactly if acceptance came before it. -/
theorem accepted_iff_of_mem (h : some b ∈ a.behind ++ [some a]) :
    b = .accepted ↔ none ∈ a.behind ++ [some a] := by
  obtain rfl : b = a := by simpa [some_notMem_behind] using h
  unfold behind
  split <;> simp [*]

end Response

/-- The checks of the payload end in another answer. -/
theorem Service.behind_of_checkPayload {outer : ControllerMessage} {a : Response}
    (h : m.checkPayload outer = .error a) : a.behind = [] := by
  unfold Service.checkPayload at h
  repeat' split at h
  all_goals cases h
  all_goals rfl

/-- The verdicts of a handler, at each program counter: it answers `202` exactly if
`acceptCallback` has returned true. -/
def ServePc.Log (verdicts : List (Option Response)) : ServePc → Prop
  | .respond a => verdicts = a.behind
  | .done => ∃ a, verdicts = a.behind ++ [some a]
  | _ => verdicts = []

theorem ServeMoves.log {pc : ServePc} {r : Result P ServePc} {verdicts : List (Option Response)}
    (h : ServeMoves m s pc r) (hl : pc.Log verdicts) :
    r.pc.Log (verdicts ++ r.events.filterMap verdict) := by
  cases h
  case respond a => exact ⟨a, congrArg (· ++ [some a]) hl⟩
  case payloadRejected ha => exact (append_nil _).trans (hl.trans (m.behind_of_checkPayload ha).symm)
  all_goals
    obtain rfl : verdicts = [] := hl
    rfl

/-- **The log rule for handlers.** What a handler has observed of the kind `f` is related to where it
stands, if its own steps keep this so. -/
theorem serve_log {β : Type} {f : Event P → Option β} {L : List β → ServePc → Prop}
    (hf : OnlyBy (P := P) .serve f) (h0 : ∀ r, L [] (.request r))
    (hstep : ∀ s pc r l, ServeMoves m s pc r → L l pc → L (l ++ r.events.filterMap f) r.pc)
    (hr : m.Reaches st) {i : ℕ}
    (hi : st.threads[i]? = some t) : ∀ pc, t.proc = .serve pc →
      L ((st.eventsOf i).filterMap f) pc := by
  refine log_invariant (L := fun p evs => ∀ pc, p = .serve pc → L (evs.filterMap f) pc)
    (fun c pc hp => ?_) (fun p hmem pc hp => ?_) (fun s t ch r evs h hl pc hp => ?_) hr hi
  · cases c <;> cases hp
    exact h0 _
  · subst hp
    simp at hmem
  · simp only [filterMap_append]
    cases stepped h with
    | fatal =>
      rw [hf.silent h nofun, append_nil]
      exact hl pc hp
    | serve hr =>
      cases hp
      exact hstep _ _ _ _ hr (hl _ rfl)
    | _ => cases hp

theorem verdict_log (hr : m.Reaches st) {i : ℕ}
    (hi : st.threads[i]? = some t) : ∀ pc, t.proc = .serve pc →
      pc.Log ((st.eventsOf i).filterMap verdict) :=
  serve_log (L := fun verdicts pc => pc.Log verdicts) onlyBy_verdict (fun _ => rfl)
    (fun _ _ _ _ h hl => h.log hl) hr hi

/-- Whoever answers is a handler. -/
theorem serve_of_responded (hr : m.Reaches st) {resp : Response}
    (h : (j, responded resp) ∈ st.trace) :
    ∃ t : Thread P, st.threads[j]? = some t ∧ ∃ pc, t.proc = .serve pc := by
  obtain ⟨t, ht, hrole⟩ := reporter_role hr j _ h rfl
  refine ⟨t, ht, ?_⟩
  cases hp : t.proc <;> simp [hp, reportedBy, Proc.role] at hrole ⊢

/-- What a handler has reported, in a view of its events that shows it as `none`. -/
theorem marked_iff {f : Event P → Option (Option Response)} {mark : ReinjectionItem → Event P}
    (hmark : ∀ e, f e = some none ↔ ∃ i, e = mark i) :
    (∃ i, (j, mark i) ∈ st.trace) ↔ none ∈ (st.eventsOf j).filterMap f := by
  simp only [mem_filterMap, hmark, State.mem_eventsOf]
  exact ⟨fun ⟨i, hi⟩ => ⟨_, hi, i, rfl⟩, fun ⟨_, he, i, hi⟩ => ⟨i, hi ▸ he⟩⟩

/-- **A callback is answered `202` exactly if it has been accepted.** -/
theorem answered_iff_accepted (hr : m.Reaches st) {resp : Response}
    (h : (j, responded resp) ∈ st.trace) :
    resp = .accepted ↔ ∃ i, (j, callbackReturned i true) ∈ st.trace := by
  obtain ⟨t, ht, pc, hp⟩ := serve_of_responded hr h
  have hlog := verdict_log hr ht pc hp
  have hmem : some resp ∈ (st.eventsOf j).filterMap verdict :=
    mem_filterMap.mpr ⟨_, State.mem_eventsOf.mpr h, rfl⟩
  rw [marked_iff (f := verdict) fun e => by unfold verdict; split <;> simp_all]
  generalize (st.eventsOf j).filterMap verdict = verdicts at hlog hmem
  -- an answer has been given, so the handler is done
  cases pc
  case respond a =>
    obtain rfl : verdicts = a.behind := hlog
    exact absurd hmem a.some_notMem_behind
  case done =>
    obtain ⟨a, rfl⟩ := hlog
    exact a.accepted_iff_of_mem hmem
  all_goals
    obtain rfl : verdicts = [] := hlog
    cases hmem

/-! ### What is enqueued has been checked -/

/-- The item that `serveMessage` makes of some request. -/
def Service.Admissible (m : Service P) (i : ReinjectionItem) : Prop :=
  ∃ r outer, m.checkOuter r = .ok outer ∧ m.checkPayload outer = .ok i

/-- The channel and the bytes of an admissible item are those in the frame of its message. -/
theorem Service.Admissible.frame (h : m.Admissible i) :
    ∃ version, decodeAdapterPayload i.message.Data = .ok ⟨version, i.channelID, i.wrapped⟩ := by
  obtain ⟨r, outer, -, h⟩ := h
  unfold Service.checkPayload at h
  repeat' split at h
  all_goals cases h
  rename_i payload hdecode _ _ _ _ _ _ _ _ _ _ _
  exact ⟨payload.Version, hdecode⟩

/-- What `serveMessage` has checked at each of its program counters. -/
def ServePc.Checked (m : Service P) : ServePc → Prop
  | .lookup outer | .running outer _ => ∃ r, m.checkOuter r = .ok outer
  | .lock i | .check i | .slot i | .bytes i | .reserve i | .enqueue i => m.Admissible i
  | _ => True

theorem ServeMoves.checked {pc : ServePc} {r : Result P ServePc} (h : ServeMoves m s pc r)
    (hc : pc.Checked m) :
    r.pc.Checked m ∧ ∀ i ∈ r.events.filterMap callbackSent, m.Admissible i := by
  cases h
  case outer ho => exact ⟨⟨_, ho⟩, forall_mem_nil _⟩
  case payload hi =>
    obtain ⟨r, hr⟩ := hc
    exact ⟨⟨r, _, hr, hi⟩, forall_mem_nil _⟩
  case enqueue => exact ⟨trivial, forall_mem_singleton.mpr hc⟩
  all_goals exact ⟨by first | exact hc | trivial, forall_mem_nil _⟩

theorem checked_log (hr : m.Reaches st) {i : ℕ}
    (hi : st.threads[i]? = some t) :
      (∀ pc, t.proc = .serve pc → pc.Checked m) ∧
      ∀ x ∈ (st.eventsOf i).filterMap callbackSent, m.Admissible x := by
  refine log_invariant (L := fun p evs => (∀ pc, p = .serve pc → pc.Checked m) ∧
    ∀ x ∈ evs.filterMap callbackSent, m.Admissible x) (fun c => ?_) (fun p hmem => ?_)
    (fun s t ch r evs h hl => ?_) hr hi
  · refine ⟨fun pc hp => ?_, forall_mem_nil _⟩
    cases c <;> cases hp
    trivial
  · refine ⟨fun pc hp => ?_, forall_mem_nil _⟩
    subst hp
    simp at hmem
  · obtain ⟨hpc, hevs⟩ := hl
    simp only [filterMap_append, mem_append]
    cases stepped h with
    | @serve pc r hr =>
      obtain ⟨hc, hnew⟩ := hr.checked (hpc _ rfl)
      refine ⟨fun pc hp => ?_, fun x hx => hx.elim (hevs x) (hnew x)⟩
      cases hp
      exact hc
    | _ =>
      -- no other goroutine sends on `callbackQueue`
      refine ⟨fun pc hp => ?_, fun x hx => hx.elim (hevs x) fun hx => ?_⟩
      · first | exact hpc pc hp | cases hp
      · rw [onlyBy_callbackSent.silent h nofun] at hx
        cases hx

theorem admissible_of_sent (hr : m.Reaches st) (h : i ∈ st.obs callbackSent) :
    m.Admissible i := by
  obtain ⟨⟨j, e⟩, he, hsent⟩ := mem_filterMap.mp h
  have hsome : e.callbackSent ≠ none := Option.ne_none_iff_exists'.mpr ⟨i, hsent⟩
  have hfatal : e.reportedBy .fatal = false := by
    rw [Bool.eq_false_iff, ne_eq, onlyBy_callbackSent e _ hsome]
    exact nofun
  obtain ⟨t, ht, -⟩ := reporter_role hr j e he hfatal
  exact (checked_log hr ht).2 i (mem_filterMap.mpr ⟨e, State.mem_eventsOf.mpr he, hsent⟩)

/-! ### The log of the worker -/

/-- The item handed to a Reactor. -/
@[simp] def Event.receivedItem : Event P → Option ReinjectionItem
  | .received i _ _ => some i
  | _ => none

theorem onlyBy_callbackTaken : OnlyBy (P := P) .reinjection callbackTaken? := by
  intro e role h
  cases e <;> simp_all [reportedBy]

theorem onlyBy_receivedItem : OnlyBy (P := P) .reinjection receivedItem := by
  intro e role h
  cases e <;> simp_all [reportedBy]

/-- The items taken and handed on by the worker, at each of its program counters: it has handed on
all it has taken, but for the one in hand. -/
def ReinjectionPc.Log (taken received : List ReinjectionItem) : ReinjectionPc P → Prop
  | .recv | .exit true | .stopped true | .receive _ _ _ | .bytes _ none => received = taken
  | .slot i | .lookup i | .running i _ | .dispatch i _ _ => taken = received ++ [i]
  | .bytes _ (some _) | .exit false | .stopped false => received <+: taken

variable {pc : ReinjectionPc P}

variable {taken received : List ReinjectionItem}

theorem ReinjectionPc.Log.isPart {pc : ReinjectionPc P} (h : pc.Log taken received) :
    received <+: taken := by
  unfold Log at h
  split at h
  all_goals first | exact h | exact h ▸ prefix_rfl | exact h ▸ prefix_append _ _

/-- One step of the worker keeps its log. -/
theorem ReinjectionMoves.log {r : Result P (ReinjectionPc P)} (h : ReinjectionMoves m s ch pc r)
    (hl : pc.Log taken received) :
    r.pc.Log (taken ++ r.events.filterMap callbackTaken?)
      (received ++ r.events.filterMap receivedItem) := by
  have hpre := Log.isPart hl
  cases h
  case fatal => simpa [Log] using hpre
  case exit ok _ => cases ok <;> simpa [Log] using hl
  all_goals
    simp only [Log] at hl
    simp [Log, filterMap_cons, hl]

theorem reinjection_log (hr : m.Reaches st) {i : ℕ}
    (hi : st.threads[i]? = some t) : ∀ pc, t.proc = .reinjection pc →
      pc.Log ((st.eventsOf i).filterMap callbackTaken?)
        ((st.eventsOf i).filterMap receivedItem) := by
  refine log_invariant (L := fun p evs => ∀ pc, p = .reinjection pc →
    pc.Log (evs.filterMap callbackTaken?) (evs.filterMap receivedItem))
    (fun c pc hp => ?_) (fun p hmem pc hp => ?_) (fun s t ch r evs h hl pc hp => ?_) hr hi
  · cases c <;> cases hp
  · subst hp
    simp only [mem_cons, Proc.reinjection.injEq, reduceCtorEq, not_mem_nil, or_false,
      false_or] at hmem
    subst hmem
    rfl
  · simp only [filterMap_append]
    cases stepped h with
    | fatal =>
      rw [onlyBy_callbackTaken.silent h nofun, onlyBy_receivedItem.silent h nofun, append_nil,
        append_nil]
      exact hl pc hp
    | reinjection hr =>
      cases hp
      exact hr.log (hl _ rfl)
    | _ => cases hp

theorem reinjection_of_role {p : Proc P} (h : p.role = .reinjection) :
    ∃ pc, p = .reinjection pc := by
  cases p <;> first | exact ⟨_, rfl⟩ | cases h

/-- What has been handed to Reactors is a first part of what has been accepted. -/
theorem received_isPart (hr : m.Reaches st) :
    st.obs receivedItem <+: st.obs callbackSent := by
  have htaken : st.obs callbackTaken? <+: st.obs callbackSent := by
    rw [callback_fifo hr, callback_received hr, append_assoc]
    exact prefix_append _ _
  refine List.IsPrefix.trans ?_ htaken
  rcases obs_worker hr (.inr rfl) with ⟨i, t, hi, hrole, hobs⟩ | ⟨-, hobs⟩
  · obtain ⟨pc, hp⟩ := reinjection_of_role hrole
    rw [hobs _ onlyBy_receivedItem, hobs _ onlyBy_callbackTaken]
    exact Log.isPart (reinjection_log hr hi pc hp)
  · rw [hobs _ onlyBy_receivedItem]
    exact nil_prefix

/-- Once the worker has stopped, without a fatal error every accepted callback has been handed on. -/
theorem received_all (hr : m.Reaches st) {i : ℕ} {ok : Bool} (hi : st.threads[i]? = some t)
    (hp : t.proc = .reinjection (.stopped ok)) (hf : st.shared.fatalErr = none) :
    st.obs receivedItem = st.obs callbackSent := by
  cases ok with
  | false =>
    rcases failed_worker hr hi (by rw [hp]; rfl) with h | ⟨h, -⟩
    · rw [hf] at h
      cases h
    · rw [hp] at h
      cases h
  | true =>
    have hlog := reinjection_log hr hi _ hp
    have hrole' : t.proc.role = .reinjection := by rw [hp]; rfl
    have hobs : ∀ {β : Type} (f : Event P → Option β), OnlyBy .reinjection f →
        st.obs f = (st.eventsOf i).filterMap f := by
      rcases obs_worker hr (R := .reinjection) (.inr rfl) with ⟨j, u, hj, hrole, hobs⟩ | ⟨hnone, -⟩
      · obtain rfl := worker_unique hr (.inr rfl) hj hi hrole hrole'
        exact hobs
      · exact absurd hrole' (hnone t (mem_of_getElem? hi))
    rw [← callback_finished hr hi (by rw [hp]; rfl), hobs _ onlyBy_receivedItem,
      hobs _ onlyBy_callbackTaken]
    exact hlog

/-! ### Source and message -/

section

variable {st st' : State P} {j : ℕ} {i : ReinjectionItem} {src : ℕ} {msg : P}

/-- Since it has item `i` in hand, worker `j` has found peer `src` registered under its source. -/
def State.Found (m : Service P) (st : State P) (j : ℕ) (i : ReinjectionItem) (src : ℕ) : Prop :=
  ∃ u, m.Reaches u ∧ Reachable (next m) u st ∧
    u.threads[j]? = some ⟨none, .reinjection (.lookup i)⟩ ∧
    u.shared.peers i.message.From = some src

/-- Since then it has also found that peer running, and `msg` is what the route of the item's
channel makes of its bytes. -/
def State.Attributed (m : Service P) (st : State P) (j : ℕ) (i : ReinjectionItem) (src : ℕ)
    (msg : P) : Prop :=
  (∃ v, v.Found m j i src ∧ Reachable (next m) v st ∧
    v.threads[j]? = some ⟨none, .reinjection (.running i src)⟩ ∧ v.shared.running src = true) ∧
  ∃ route, m.registry i.channelID = some route ∧ route.decode i.wrapped = some msg ∧
    route.hasReactor = true

theorem State.Found.mono (h : st.Found m j i src) (hs : Reachable (next m) st st') :
    st'.Found m j i src := by
  obtain ⟨u, hu, hst, hrest⟩ := h
  exact ⟨u, hu, hst.trans hs, hrest⟩

theorem State.Attributed.mono (h : st.Attributed m j i src msg)
    (hs : Reachable (next m) st st') : st'.Attributed m j i src msg := by
  obtain ⟨⟨v, hv, hst, hrest⟩, hroute⟩ := h
  exact ⟨⟨v, hv, hst.trans hs, hrest⟩, hroute⟩

end

theorem reachable_move {i : ℕ} (h : Moves m st i ch t r) :
    Reachable (next m) st (st.move i r) :=
  (Steps.refl st).tail trivial h.next

theorem reachable_call (hr : m.Reaches st) (c : Call) :
    Reachable (next m) st { st with threads := st.threads ++ [c.thread] } :=
  (Steps.refl st).tail (a := .call c) trivial (next_live (not_crashed hr) _)

theorem reachable_world (hr : m.Reaches st) {w : World} {s' : Shared}
    (h : st.shared.world w = some s') :
    Reachable (next m) st { st with shared := st.shared.withWorld s' } := by
  refine (Steps.refl st).tail (a := .world w) trivial ((next_live (not_crashed hr) _).trans ?_)
  rw [← Shared.world_footprint h]
  exact congrArg (Option.map _) h

/-- What the worker knows of its item at each program counter. -/
def State.Knows (m : Service P) (st : State P) (j : ℕ) : ReinjectionPc P → Prop
  | .running i src => st.Found m j i src
  | .dispatch i src msg => st.Attributed m j i src msg
  | _ => True

theorem State.Knows.mono {st' : State P} (h : st.Knows m j pc) (hs : Reachable (next m) st st') :
    st'.Knows m j pc := by
  cases pc
  case running => exact State.Found.mono h hs
  case dispatch => exact State.Attributed.mono h hs
  all_goals trivial

/-- One step of the worker: it comes to know the source by looking it up, and the message by
decoding it. -/
theorem ReinjectionMoves.knows {st' : State P} {r : Result P (ReinjectionPc P)}
    (h : ReinjectionMoves m st.shared ch pc r) (hreach : m.Reaches st)
    (hj : st.threads[j]? = some ⟨none, .reinjection pc⟩) (hs : Reachable (next m) st st')
    (hk : st.Knows m j pc) : st'.Knows m j r.pc := by
  cases h
  case lookup hp => exact ⟨st, hreach, hs, hj, hp⟩
  case running hrun hroute hd hreactor =>
    exact ⟨⟨st, hk, hs, hj, hrun⟩, _, hroute, hd, hreactor⟩
  all_goals trivial

theorem knows (hr : m.Reaches st) {j : ℕ}
    (hi : st.threads[j]? = some t) : ∀ pc, t.proc = .reinjection pc →
      st.Knows m j pc := by
  refine Machine.threads_invariant ?_ ?_ ?_ ?_ ?_ ?_ hr hi
  · intro st c _ pc hp
    cases c <;> cases hp
  · exact fun st c j t hreach h pc hp => (h pc hp).mono (reachable_call hreach c)
  · exact fun st s' a j t hreach h hs pc hp => (h pc hp).mono (reachable_world hreach hs)
  · intro st j ch t r hmv ih pc hp
    have ih := ih j t hmv.thread
    cases stepped hmv.step with
    | fatal => exact (ih pc hp).mono (reachable_move hmv)
    | reinjection hr =>
      cases hp
      exact hr.knows hmv.runs hmv.thread (reachable_move hmv) (ih _ rfl)
    | _ => cases hp
  · exact fun st i ch t r j u hmv _ _ ih pc hp => (ih pc hp).mono (reachable_move hmv)
  · intro st i ch t r j u hmv _ hu pc hp
    rcases mem_launched hmv.step hu with rfl | rfl | rfl <;> cases hp
    trivial

/-- A `Receive` is reported by the worker about to make it. -/
theorem Thread.step_received (h : t.step m s ch = some r) {src : ℕ} {msg : P}
    (he : .received i src msg ∈ r.events) :
    t = ⟨none, .reinjection (.dispatch i src msg)⟩ := by
  cases stepped h <;> rename_i hr <;> cases hr <;> simp [Result.crash] at he
  obtain ⟨rfl, rfl, rfl⟩ := he
  rfl

/-- **Attribution.** Every `Receive` was made, at some state of the run, by a worker that had looked
its source up and decoded its message. -/
theorem attributed (hr : m.Reaches st) :
    ∀ j i src msg, (j, Event.received i src msg) ∈ st.trace →
      ∃ w, w.Attributed m j i src msg ∧ Reachable (next m) w st ∧
        w.threads[j]? = some ⟨none, .reinjection (.dispatch i src msg)⟩ := by
  refine Machine.invariant (by simp [start]) ?_ ?_ ?_ hr
  · intro st c hreach ih j i src msg he
    obtain ⟨w, hw, hs, ht⟩ := ih j i src msg he
    exact ⟨w, hw, hs.trans (reachable_call hreach c), ht⟩
  · intro st s' a hreach ih hs j i src msg he
    obtain ⟨w, hw, hst, ht⟩ := ih j i src msg he
    exact ⟨w, hw, hst.trans (reachable_world hreach hs), ht⟩
  · intro st k ch t r hmv ih j i src msg he
    rcases mem_append.mp he with he | he
    · obtain ⟨w, hw, hst, ht⟩ := ih j i src msg he
      exact ⟨w, hw, hst.trans (reachable_move hmv), ht⟩
    · obtain ⟨e, he', heq⟩ := mem_map.mp he
      cases heq
      obtain rfl := step_received hmv.step he'
      exact ⟨st, knows hmv.runs hmv.thread _ rfl, reachable_move hmv, hmv.thread⟩

/-! ### The inbound path -/

/-- **Callback order, multiplicity and attribution.** In every run: what has been handed to Reactors
is a first part of what has been enqueued, which is what `acceptCallback` has accepted, in this
order, followed by the item of one call that is about to return; a handler answers `202` exactly if
its item was accepted; every `Receive` carries the channel and the bytes in the frame of its own
callback, decoded by the route of this channel, with the peer that was registered under its source
when the worker looked it up and running when it then checked; and once the worker has stopped,
without a fatal error everything accepted has been handed on. -/
theorem reinjection_faithful (m : Service P) {st : State P} (hr : m.Reaches st) :
    st.obs receivedItem <+: st.obs callbackSent ∧
    (∃ pending, st.obs callbackSent = st.obs callbackAccepted ++ pending ∧
      (pending = [] ∨ ∃ i, pending = [i] ∧ ∃ t ∈ st.threads, enqueuedItem t.proc = [i])) ∧
    (∀ j resp, (j, responded resp) ∈ st.trace →
      (resp = .accepted ↔ ∃ i, (j, callbackReturned i true) ∈ st.trace)) ∧
    (∀ j i src msg, (j, Event.received i src msg) ∈ st.trace →
      (∃ version, decodeAdapterPayload i.message.Data = .ok ⟨version, i.channelID, i.wrapped⟩) ∧
      ∃ w, w.Attributed m j i src msg ∧ Reachable (next m) w st ∧
        w.threads[j]? = some ⟨none, .reinjection (.dispatch i src msg)⟩) ∧
    (∀ (j : ℕ) t ok, st.threads[j]? = some t → t.proc = .reinjection (.stopped ok) →
      st.shared.fatalErr = none → st.obs receivedItem = st.obs callbackSent) := by
  refine ⟨received_isPart hr, ?_, fun j resp => answered_iff_accepted hr, ?_,
    fun j t ok hj hp hf => received_all hr hj hp hf⟩
  · rcases (accepted_callbacks hr).free_or_held with h | ⟨j, t, hj, -, h⟩
    · exact ⟨[], by rw [h, append_nil], .inl rfl⟩
    · refine ⟨enqueuedItem t.proc, h, ?_⟩
      by_cases hp : ∃ i, t.proc = .serve (.unlock i true)
      · obtain ⟨i, hp⟩ := hp
        exact .inr ⟨i, by rw [hp]; rfl, t, mem_of_getElem? hj, by rw [hp]; rfl⟩
      · refine .inl ?_
        unfold enqueuedItem
        split
        · exact absurd ⟨_, by assumption⟩ hp
        · rfl
  · intro j i src msg he
    have hsent : i ∈ st.obs callbackSent :=
      (received_isPart hr).subset (mem_filterMap.mpr ⟨_, he, rfl⟩)
    exact ⟨(admissible_of_sent hr hsent).frame, attributed hr j i src msg he⟩

/-- A peer connects and one callback from it is accepted. -/
def callbackRun : List Action :=
  .world (.peerAdd samplePeer) ::
    .call (.serveMessage ⟨ascii "POST", some (ascii "application/json"), [1]⟩) ::
    replicate 12 (go 4)

theorem reinjection_faithful_sample :
    let st := sample.after (startRun ++ callbackRun ++ replicate 7 (go 2) ++ stopRun)
    ((st.obs callbackSent).map (·.wrapped) = [[7]] ∧ st.shared.fatalErr = none ∧
      (st.threads[2]?.map fun t => match t.proc with
        | .reinjection (.stopped ok) => ok
        | _ => false) = some true) ∧
    st.obs receivedItem = st.obs callbackSent := by
  refine ⟨by decide, ?_⟩
  exact (reinjection_faithful sample (sample.reaches_after (by decide))).2.2.2.2 2
    ⟨none, .reinjection (.stopped true)⟩ true rfl rfl (by decide)

/-- The source under which a callback was handed to a Reactor, and the peer named with it. -/
def Event.receivedFrom : Event P → Option (ID × ℕ)
  | .received i src _ => some (i.message.From, src)
  | _ => none

/-- After the worker has found peer `0` running, this peer stops and is removed, and the node
connects again as peer `1`. -/
def reconnectRun : List Action :=
  startRun ++ callbackRun ++ replicate 4 (go 2) ++
    [.world (.peerStop 0), .world (.peerRemove samplePeer), .world (.peerAdd samplePeer)]

/-- The worker's `Receive` then still names the peer that has gone. -/
theorem received_from_removed :
    let st := sample.after reconnectRun
    (exec (next sample) init reconnectRun).isSome = true ∧
    st.shared.peers samplePeer = some 1 ∧ st.shared.running 0 = false ∧
    st.obs receivedFrom = [] ∧
    (sample.after (reconnectRun ++ [go 2])).obs receivedFrom = [(samplePeer, 0)] := by
  decide

end CometBFT.Mediation
