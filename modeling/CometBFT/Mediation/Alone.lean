import CometBFT.Mediation.Accounting
import CometBFT.Mediation.Reinjection

/-!
# Goroutines that are left alone

What a goroutine does if no other one moves is a function of its choices. Run alone, a handler takes
an admissible request through to `202`, as soon as the service is ready, the source is a running
peer and the bounds of the queue leave room; and the idle worker takes what was accepted through to
the Reactor.

## Main definitions

* `alone` — the steps of one goroutine

## Main results

* `exec_alone` — these are steps of the machine
* `serveMessage_alone` — a handler alone answers `202`
* `reinjectionWorker_alone` — the worker alone dispatches
-/

namespace CometBFT.Mediation

open List

variable {P : Type*} {m : Service P}

/-- What a goroutine that calls no `fatal` and launches nothing has reached. -/
structure Progress (P : Type*) where
  shared : Shared
  proc : Proc P
  events : List (Event P) := []

/-- One step of a goroutine that is left alone. -/
def Progress.step (m : Service P) (g : Progress P) (ch : Choice) : Option (Progress P) :=
  match g.shared.crashed, g.proc.step m g.shared ch with
  | false, some ⟨s, p, none, [], evs⟩ => some ⟨s, p, g.events ++ evs⟩
  | _, _ => none

/-- The steps of one goroutine, by the choices it meets. -/
def alone (m : Service P) (g : Progress P) (chs : List Choice) : Option (Progress P) :=
  chs.foldlM (Progress.step m) g

variable {g g' : Progress P} {st : State P} {s : Shared} {item : ReinjectionItem}

theorem Progress.step_eq {ch : Choice} (h : g.step m ch = some g') :
    g.shared.crashed = false ∧ ∃ evs, g'.events = g.events ++ evs ∧
      Thread.step m g.shared ch ⟨none, g.proc⟩ =
        some { shared := g'.shared, thread := ⟨none, g'.proc⟩, events := evs } := by
  unfold Progress.step at h
  split at h
  · rename_i s p evs hc hstep
    cases h
    refine ⟨hc, evs, rfl, ?_⟩
    rw [Thread.step, hstep]
    rfl
  · cases h

/-- **The steps of a goroutine that is left alone are steps of the machine**, and nothing else
changes. -/
theorem exec_alone {chs : List Choice} {k : ℕ} (hk : st.threads[k]? = some ⟨none, g.proc⟩)
    (hs : st.shared = g.shared) (h : alone m g chs = some g') :
    ∃ evs, g'.events = g.events ++ evs ∧
      exec (next m) st (chs.map (.run k)) = some
        { shared := g'.shared
          threads := st.threads.set k ⟨none, g'.proc⟩
          trace := st.trace ++ evs.map (k, ·) } := by
  induction chs generalizing st g with
  | nil =>
    cases h
    refine ⟨[], by simp, ?_⟩
    have hset : st.threads.set k ⟨none, g'.proc⟩ = st.threads := by
      obtain ⟨hlt, hget⟩ := List.getElem?_eq_some_iff.mp hk
      rw [← hget, List.set_getElem_self]
    rw [← hs, hset]
    simp
  | cons ch chs ih =>
    rw [alone, foldlM_cons] at h
    obtain ⟨g₁, hg₁, hrest⟩ := Option.bind_eq_some_iff.mp h
    obtain ⟨hc, evs, hevs, hstep⟩ := Progress.step_eq hg₁
    rw [← hs] at hc hstep
    have hlt : k < st.threads.length := (List.getElem?_eq_some_iff.mp hk).1
    have hk' : (st.move k { shared := g₁.shared, thread := ⟨none, g₁.proc⟩, events := evs }).threads[k]?
        = some ⟨none, g₁.proc⟩ := by simp [Goroutines.Config.move, hlt]
    obtain ⟨evs', hevs', hexec⟩ := ih hk' rfl hrest
    refine ⟨evs ++ evs', by rw [hevs', hevs, append_assoc], ?_⟩
    rw [map_cons, exec_cons, next_run hc hk hstep, Option.bind_some, hexec]
    simp [Goroutines.Config.move]

/-! ### The handler -/

/-- A request of the form that the controller sends. -/
def callbackRequest (body : Bytes) : Request :=
  ⟨ascii "POST", some (ascii "application/json"), body⟩

/-- What the shared record has to offer for a callback from `source` of so many bytes to be
accepted. -/
structure Shared.Admits (s : Shared) (m : Service P) (source : ID) (bytes : ℤ) : Prop where
  ready : s.isReady = true
  /-- nobody else is inside `acceptCallback` -/
  free : s.callbackMu = false
  slots : s.callbackSlots < m.limits.callbackQueueCapacity
  bytes : s.callbackBytes + bytes ≤ m.limits.callbackQueueBytes
  /-- the source is a running peer -/
  connected : ∃ peer, s.peers source = some peer ∧ s.running peer = true

/-- The record after a callback has been accepted. -/
def Shared.accept (s : Shared) (i : ReinjectionItem) : Shared :=
  { s with
    callbackQueue := ⟨s.callbackQueue.buf ++ [i], false⟩
    callbackSlots := s.callbackSlots + 1
    callbackBytes := s.callbackBytes + i.bytes }

/-- A slot that is free is room in the queue. -/
theorem callbackQueue_room (hr : m.Reaches st)
    (h : st.shared.callbackSlots < m.limits.callbackQueueCapacity) :
    st.shared.callbackQueue.buf.length < m.limits.callbackQueueCapacity := by
  have hb : callbackSlotsLedger.Balanced st := balanced hr (by simp [ledgers])
  have hnonneg : 0 ≤ Pool.total (fun t : Thread P => heldCallbackSlots t.proc) st.threads :=
    Pool.total_nonneg fun t _ => heldCallbackSlots_nonneg t.proc
  simp only [Ledger.Balanced, callbackSlotsLedger] at hb
  omega

theorem alone_cons {g₁ : Progress P} {ch : Choice} {chs : List Choice} (h : g.step m ch = some g₁)
    (hrest : alone m g₁ chs = some g') :
    alone m g (ch :: chs) = some g' := by
  rw [alone, foldlM_cons, h]
  exact hrest

theorem progress_serve {s' : Shared} {p q : ServePc} {E evs : List (Event P)}
    (hc : s.crashed = false) (h : serveStep m s p = some (.to s' q evs)) :
    Progress.step m ⟨s, .serve p, E⟩ .go = some ⟨s', .serve q, E ++ evs⟩ := by
  simp [Progress.step, Proc.step, hc, h, Result.map]

/-- The steps of the handler. -/
theorem serveMessage_progress {body : Bytes} {outer : ControllerMessage} (hlive : s.crashed = false)
    (ha : s.Admits m outer.From item.bytes) (hopen : s.callbackQueue.closed = false)
    (hroom : s.callbackQueue.buf.length < m.limits.callbackQueueCapacity)
    (houter : m.checkOuter (callbackRequest body) = .ok outer)
    (hitem : m.checkPayload outer = .ok item) :
    alone m ⟨s, .serve (.request (callbackRequest body)), []⟩ (replicate 12 .go) = some
      ⟨s.accept item, .serve .done,
        [.callbackEnqueued item, .callbackReturned item true, .responded .accepted]⟩ := by
  obtain ⟨peer, hpeer, hrunning⟩ := ha.connected
  have hready := ha.ready
  have hsend : s.callbackQueue.send m.limits.callbackQueueCapacity item =
      .done ⟨s.callbackQueue.buf ++ [item], false⟩ := Chan.send_eq_done.mpr ⟨hopen, hroom, rfl⟩
  -- the checks, up to the peer
  refine alone_cons (progress_serve (q := .ready _) hlive rfl) ?_
  refine alone_cons (progress_serve (q := .lookup outer) hlive
    (by rw [serveStep, if_pos hready, houter])) ?_
  refine alone_cons (progress_serve (q := .running outer peer) hlive
    (by rw [serveStep, hpeer])) ?_
  refine alone_cons (progress_serve (q := .lock item) hlive
    (by rw [serveStep, if_pos hrunning, hitem])) ?_
  -- `acceptCallback`
  refine alone_cons (progress_serve (q := .check item) hlive
    (by rw [serveStep, if_neg (by simp [ha.free])])) ?_
  refine alone_cons (progress_serve (q := .slot item) hlive
    (by rw [serveStep]; exact if_pos hready)) ?_
  refine alone_cons (progress_serve (q := .bytes item) hlive
    (by rw [serveStep]; exact if_pos ha.slots)) ?_
  refine alone_cons (progress_serve (q := .reserve item) hlive
    (by rw [serveStep]; exact if_neg (not_lt.mpr ha.bytes))) ?_
  refine alone_cons (progress_serve (q := .enqueue item) hlive rfl) ?_
  refine alone_cons (progress_serve (q := .unlock item true) hlive
    (by rw [serveStep]; dsimp only; rw [hsend])) ?_
  refine alone_cons (progress_serve (q := .respond .accepted) hlive rfl) ?_
  refine alone_cons (progress_serve (q := .done) hlive rfl) ?_
  show some _ = some _
  simp [Shared.accept, ← ha.free]

/-- **A handler alone answers `202`**, whatever state the rest of the service is in. -/
theorem serveMessage_alone (hr : m.Reaches st) {body : Bytes} {outer : ControllerMessage}
    (ha : st.shared.Admits m outer.From item.bytes)
    (houter : m.checkOuter (callbackRequest body) = .ok outer)
    (hitem : m.checkPayload outer = .ok item) :
    exec (next m) st (.call (.serveMessage (callbackRequest body)) ::
        replicate 12 (.run st.threads.length .go)) = some
      { shared := st.shared.accept item
        threads := st.threads ++ [⟨none, .serve .done⟩]
        trace := st.trace ++ [.callbackEnqueued item, .callbackReturned item true,
          .responded .accepted].map (st.threads.length, ·) } := by
  have hlive := not_crashed hr
  let called : State P :=
    { st with threads := st.threads ++ [(Call.serveMessage (callbackRequest body)).thread] }
  have hk : called.threads[st.threads.length]? =
      some ⟨none, .serve (.request (callbackRequest body))⟩ := by simp [called, Call.thread]
  obtain ⟨evs, hevs, hexec⟩ := exec_alone hk rfl
    (serveMessage_progress hlive ha (open_of_isReady hr ha.ready).2
      (callbackQueue_room hr ha.slots) houter hitem)
  rw [nil_append] at hevs
  subst hevs
  rw [map_replicate] at hexec
  rw [exec_cons, next_live hlive]
  refine hexec.trans ?_
  simp [called]

/-! ### The worker -/

theorem progress_reinjection {s' : Shared} {p q : ReinjectionPc P} {E evs : List (Event P)}
    (hc : s.crashed = false)
    (h : reinjectionStep m s .go p = some (.to s' q evs)) :
    Progress.step m ⟨s, .reinjection p, E⟩ .go = some ⟨s', .reinjection q, E ++ evs⟩ := by
  simp [Progress.step, Proc.step, hc, h, Result.map]

/-- **The worker alone dispatches** the only item of the queue, if its source is still a running
peer and its route can decode it. -/
theorem reinjectionWorker_alone (hlive : st.shared.crashed = false) {j : ℕ} {peer : ℕ} {msg : P}
    {route : NativeRoute P} (hj : st.threads[j]? = some ⟨none, .reinjection .recv⟩)
    (hq : st.shared.callbackQueue.buf = [item]) (hslots : 0 < st.shared.callbackSlots)
    (hpeer : st.shared.peers item.message.From = some peer)
    (hrunning : st.shared.running peer = true) (hroute : m.registry item.channelID = some route)
    (hdecode : route.decode item.wrapped = some msg) (hreactor : route.hasReactor = true) :
    ∃ st', exec (next m) st (replicate 5 (.run j .go)) = some st' ∧
      st'.trace = st.trace ++ [(j, .callbackTaken item), (j, .received item peer msg)] := by
  have hrecv : st.shared.callbackQueue.recv =
      .done (some item, ⟨[], st.shared.callbackQueue.closed⟩) :=
    Chan.recv_eq_some.mpr ⟨[], hq, rfl⟩
  have hprogress : alone m ⟨st.shared, .reinjection .recv, []⟩ (replicate 5 .go) = some
      ⟨{ st.shared with
          callbackQueue := ⟨[], st.shared.callbackQueue.closed⟩
          callbackSlots := st.shared.callbackSlots - 1 },
        .reinjection (.receive item peer msg), [.callbackTaken item, .received item peer msg]⟩ := by
    refine alone_cons (progress_reinjection (q := .slot item) hlive
      (by rw [reinjectionStep, hrecv])) ?_
    refine alone_cons (progress_reinjection (q := .lookup item) hlive
      (by rw [reinjectionStep]; exact if_pos hslots)) ?_
    refine alone_cons (progress_reinjection (q := .running item peer) hlive
      (by rw [reinjectionStep]; dsimp only; rw [hpeer])) ?_
    refine alone_cons (progress_reinjection (q := .dispatch item peer msg) hlive
      (by rw [reinjectionStep]; dsimp only; rw [if_pos hrunning, hroute]; dsimp only
          rw [hdecode]; exact if_pos hreactor)) ?_
    exact alone_cons (progress_reinjection (q := .receive item peer msg) hlive rfl) rfl
  obtain ⟨evs, hevs, hexec⟩ := exec_alone hj rfl hprogress
  rw [nil_append] at hevs
  subst hevs
  rw [map_replicate] at hexec
  exact ⟨_, hexec, rfl⟩

end CometBFT.Mediation
