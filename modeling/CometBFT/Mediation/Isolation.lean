import CometBFT.Mediation.Alone
import CometBFT.Mediation.Config

/-!
# Individual messages

A forwarded message that is no good is meant to cost this message only. Before acceptance that is so:
whatever is wrong with a request, the handler answers with a status outside `2xx` and leaves the queue
alone. After acceptance it is not: the handling of one message may stop the peer that it came from, as
the consensus Reactor does for a `NewRoundStep` of an impossible height, and the next message of this
peer, accepted while the peer was running, then finds it gone, which is fatal. So is a Reactor that
panics. And a message on which the validator panics gets no answer at all.

This module has both sides: the run in which the second message takes the node down, and the theorem
that nothing else can, as long as neither Reactors nor validators panic and a message whose handling
stops its source is alone in flight from this source.

## Main definitions

* `undisturbed` — the environment: bounds respected, no peer lost and no failure for other reasons
* `isolated` — no panic, and a step of a Reactor that stops or removes the source has no other
  message of this source in flight
* `State.Calm` — the invariant

## Main results

* `calm` — every state of an undisturbed run with isolated messages is calm
* `messages_isolated` — no fatal error, every request answered for itself, later requests accepted
* `fatal_by_two_messages` — two messages of one source that are fatal
-/

namespace CometBFT.Mediation

open Function List Event

variable {P : Type*} {m : Service P} {s s' : Shared} {ch : Choice}

/-! ### The condition on runs -/

/-- The source of a callback whose peer has been looked up and that is not yet with its Reactor. -/
def Proc.source : Proc P → Option ID
  | .serve (.running outer _) => some outer.From
  | .serve (.lock i) | .serve (.check i) | .serve (.slot i) | .serve (.bytes i)
  | .serve (.reserve i) | .serve (.enqueue i) => some i.message.From
  | .reinjection (.slot i) | .reinjection (.lookup i) | .reinjection (.running i _) =>
    some i.message.From
  | _ => none

/-- A callback from `source` is in flight: in the queue, or in the hands of a goroutine. -/
def State.inFlight (st : State P) (source : ID) : Bool :=
  st.shared.callbackQueue.buf.any (fun i => decide (i.message.From = source)) ||
    st.threads.any fun t => decide (t.proc.source = some source)

/-- Nothing but callbacks can go wrong: the bounds of the queue are not exceeded, no peer is stopped
or removed from outside, and no other goroutine calls `fatal`. -/
def undisturbed (m : Service P) (st : State P) : Action → Bool
  | .call (.localInvariant _) | .world (.peerStop _) | .world (.peerRemove _) => false
  | .call _ | .world _ => true
  | .run i ch =>
    match st.threads[i]? with
    | none => true
    | some t => match t.proc with
      | .serve (.slot _) => decide (st.shared.callbackSlots < m.limits.callbackQueueCapacity)
      | .serve (.bytes x) =>
        decide (st.shared.callbackBytes + x.bytes ≤ m.limits.callbackQueueBytes)
      | .serve _ | .reinjection _ => true
      | _ => (t.step m st.shared ch).all fun r => r.thread.fatal.isNone

/-- No Reactor and no validator panics, and a Reactor stops or removes the source of a message only
while no other message of this source is in flight. -/
def isolated (m : Service P) (st : State P) : Action → Bool
  | .run i ch =>
    match st.threads[i]? with
    | some ⟨_, .serve (.running outer _)⟩ =>
      match m.checkPayload outer with
      | .error a => decide (a ≠ .aborted)
      | .ok _ => true
    | some ⟨_, .reinjection (.receive x _ _)⟩ => decide (ch ≠ .reactorPanic) &&
      (decide (ch ≠ .stopSource ∧ ch ≠ .removeSource) || !st.inFlight x.message.From)
    | _ => true
  | _ => true

/-! ### The invariant -/

/-- A running peer is registered under this identity. -/
def Shared.Connected (s : Shared) (id : ID) : Prop :=
  ∃ peer, s.peers id = some peer ∧ s.running peer = true

/-- A peer object, once made, is registered under this identity or not at all. -/
def Shared.Owns (s : Shared) (id : ID) (peer : ℕ) : Prop :=
  peer < s.nextPeer ∧ ∀ id', s.peers id' = some peer → id' = id

/-- The worker will be able to decode this item and to find a Reactor for it. -/
def Service.Deliverable (m : Service P) (i : ReinjectionItem) : Prop :=
  ∃ route msg, m.registry i.channelID = some route ∧ route.decode i.wrapped = some msg ∧
    route.hasReactor = true

/-- What a handler relies on. -/
def ServePc.Sound (m : Service P) (s : Shared) : ServePc → Prop
  | .lookup _ => s.everReady = true
  | .running outer peer => s.everReady = true ∧ s.peers outer.From = some peer
  | .lock i | .check i | .slot i | .bytes i | .reserve i | .enqueue i =>
    s.everReady = true ∧ s.Connected i.message.From ∧ m.Deliverable i
  | .dropSlot _ => False
  | .unlock _ ok => ok = false → s.stopping = true
  | .stopping _ => s.stopping = true
  | .respond a => a ≠ .aborted
  | _ => True

/-- What the worker relies on. -/
def ReinjectionPc.Sound (m : Service P) (s : Shared) : ReinjectionPc P → Prop
  | .slot i | .lookup i => s.Connected i.message.From ∧ m.Deliverable i
  | .running i peer =>
    s.peers i.message.From = some peer ∧ s.running peer = true ∧ m.Deliverable i
  | .dispatch i peer _ | .receive i peer _ => s.Owns i.message.From peer
  | .bytes _ err => err = none
  | _ => True

def Proc.Sound (m : Service P) (s : Shared) : Proc P → Prop
  | .serve pc => pc.Sound m s
  | .reinjection pc => pc.Sound m s
  | _ => True

/-- A state without a fatal error and without the makings of one. -/
structure State.Calm (m : Service P) (st : State P) : Prop where
  fatalErr : st.shared.fatalErr = none
  ready : st.shared.everReady = true → st.shared.ready = true ∨ st.shared.stopping = true
  owns : ∀ id peer, st.shared.peers id = some peer → st.shared.Owns id peer
  queue : ∀ i ∈ st.shared.callbackQueue.buf, st.shared.Connected i.message.From ∧ m.Deliverable i
  threads : ∀ t ∈ st.threads, t.fatal = none ∧ t.proc.Sound m st.shared
  answers : ∀ k, (k, responded .aborted) ∉ st.trace

/-! ### What survives a step -/

/-- What a step leaves in place: everything that is relied on about the sources other than `gone`. -/
structure Kept (gone : Option ID) (s s' : Shared) : Prop where
  fatalErr : s'.fatalErr = s.fatalErr
  ready : (s.everReady = true → s.ready = true ∨ s.stopping = true) →
    s'.everReady = true → s'.ready = true ∨ s'.stopping = true
  everReady : s.everReady = true → s'.everReady = true
  stopping : s.stopping = true → s'.stopping = true
  peers : ∀ id peer, gone ≠ some id → s.peers id = some peer → s'.peers id = some peer
  running : ∀ id peer, gone ≠ some id → s.peers id = some peer → s.running peer = true →
    s'.running peer = true
  owns : ∀ id peer, s.Owns id peer → s'.Owns id peer
  registered : (∀ id peer, s.peers id = some peer → s.Owns id peer) →
    ∀ id peer, s'.peers id = some peer → s'.Owns id peer

variable {id : ID}

namespace Kept

variable {gone : Option ID}

theorem connected (h : Kept gone s s') (hid : gone ≠ some id) (hc : s.Connected id) :
    s'.Connected id := by
  obtain ⟨peer, hp, hr⟩ := hc
  exact ⟨peer, h.peers id peer hid hp, h.running id peer hid hp hr⟩

theorem sound (h : Kept gone s s') {p : Proc P} (hp : ∀ id, gone = some id → p.source ≠ some id)
    (hs : p.Sound m s) : p.Sound m s' := by
  have hsource : ∀ id, p.source = some id → gone ≠ some id := fun id h₁ h₂ => hp id h₂ h₁
  cases p
  case serve pc =>
    cases pc
    case lookup => exact h.everReady hs
    case running outer peer =>
      exact ⟨h.everReady hs.1, h.peers _ _ (hsource _ rfl) hs.2⟩
    case unlock i ok => exact fun hok => h.stopping (hs hok)
    case stopping i => exact h.stopping hs
    case dropSlot | respond => exact hs
    case lock | check | slot | bytes | reserve | enqueue =>
      exact ⟨h.everReady hs.1, h.connected (hsource _ rfl) hs.2.1, hs.2.2⟩
    all_goals trivial
  case reinjection pc =>
    cases pc
    case slot | lookup => exact ⟨h.connected (hsource _ rfl) hs.1, hs.2⟩
    case running i peer =>
      exact ⟨h.peers _ _ (hsource _ rfl) hs.1, h.running _ _ (hsource _ rfl) hs.1 hs.2.1, hs.2.2⟩
    case dispatch | receive => exact h.owns _ _ hs
    case bytes => exact hs
    all_goals trivial
  all_goals trivial

/-- A step that does not touch the peers. -/
theorem of_peers (hf : s'.fatalErr = s.fatalErr) (hp : s'.peers = s.peers)
    (hr : s'.running = s.running) (hn : s'.nextPeer = s.nextPeer)
    (hready : (s.everReady = true → s.ready = true ∨ s.stopping = true) →
      s'.everReady = true → s'.ready = true ∨ s'.stopping = true)
    (he : s.everReady = true → s'.everReady = true)
    (hs : s.stopping = true → s'.stopping = true) : Kept gone s s' := by
  have howns : ∀ id peer, s.Owns id peer → s'.Owns id peer := by
    intro id peer h
    rwa [Shared.Owns, hp, hn]
  refine ⟨hf, hready, he, hs, fun id peer _ h => ?_, fun id peer _ _ h => ?_, howns, ?_⟩
  · rwa [hp]
  · rwa [hr]
  · intro h id peer hid
    rw [hp] at hid
    exact howns id peer (h id peer hid)

end Kept

/-! ### The steps of the goroutines -/

/-- The registry was frozen, so that every route has a Reactor. -/
def Service.Frozen (m : Service P) : Prop :=
  ∀ c route, m.registry c = some route → route.hasReactor = true

/-- What the handler has decoded, the worker can decode again. -/
theorem deliverable_of_checkPayload (hm : m.Frozen) {outer : ControllerMessage}
    {i : ReinjectionItem} (h : m.checkPayload outer = .ok i) :
    i.message = outer ∧ m.Deliverable i := by
  unfold Service.checkPayload at h
  repeat' split at h
  all_goals cases h
  rename_i payload _ _ _ _ _ _ _ decoded hdecode _ _ _
  refine ⟨rfl, ?_⟩
  obtain ⟨route, hroute, hdec⟩ := Option.bind_eq_some_iff.mp hdecode
  exact ⟨route, decoded, hroute, hdec, hm _ _ hroute⟩

/-- What the bounds of the queue and the validators allow a handler. -/
def ServePc.Within (m : Service P) (s : Shared) : ServePc → Prop
  | .running outer _ => m.checkPayload outer ≠ .error .aborted
  | .slot _ => s.callbackSlots < m.limits.callbackQueueCapacity
  | .bytes i => s.callbackBytes + i.bytes ≤ m.limits.callbackQueueBytes
  | _ => True

/-- **One step of a handler** calls no `fatal`, enqueues only what can be delivered, and leaves it
with what it relies on. -/
theorem ServeMoves.sound {pc : ServePc} {r : Result P ServePc} (hm : m.Frozen)
    (h : ServeMoves m s pc r) (hpc : pc.Sound m s) (hwithin : pc.Within m s)
    (hf : s.fatalErr = none)
    (hready : s.everReady = true → s.ready = true ∨ s.stopping = true)
    (hever : s.ready = true → s.everReady = true) :
    Kept none s r.shared ∧ r.fatal = none ∧ r.pc.Sound m r.shared ∧
      (∀ i ∈ r.shared.callbackQueue.buf,
        i ∈ s.callbackQueue.buf ∨ r.shared.Connected i.message.From ∧ m.Deliverable i) ∧
      responded .aborted ∉ r.events := by
  refine ⟨by cases h <;> exact .of_peers rfl rfl rfl rfl id id id, ?_⟩
  suffices hrest : r.fatal = none ∧ r.pc.Sound m r.shared ∧ ∀ i ∈ r.shared.callbackQueue.buf,
      i ∈ s.callbackQueue.buf ∨ r.shared.Connected i.message.From ∧ m.Deliverable i by
    refine ⟨hrest.1, hrest.2.1, hrest.2.2, fun hmem => ?_⟩
    cases h <;> simp [Result.crash] at hmem
    case respond => exact hpc hmem.symm
  cases h
  case outer hr _ =>
    simp only [Shared.isReady, Bool.and_eq_true] at hr
    exact ⟨rfl, hever hr.1.1, fun i hi => .inl hi⟩
  case lookup hp => exact ⟨rfl, ⟨hpc, hp⟩, fun i hi => .inl hi⟩
  case payload hrun hi =>
    obtain ⟨rfl, hd⟩ := deliverable_of_checkPayload hm hi
    exact ⟨rfl, ⟨hpc.1, ⟨_, hpc.2, hrun⟩, hd⟩, fun i hi => .inl hi⟩
  case notReady hr =>
    refine ⟨rfl, fun _ => ?_, fun i hi => .inl hi⟩
    -- not ready without a fatal error: the service is stopping
    rcases hready hpc.1 with hrdy | hs
    · simpa [Shared.isReady, hrdy, hf] using hr
    · exact hs
  case payloadRejected ha => exact ⟨rfl, fun hab => hwithin (hab ▸ ha), fun i hi => .inl hi⟩
  case noSlot hs => exact absurd hwithin hs
  case noBytes hb => exact absurd hwithin (not_le.mpr hb)
  case enqueue =>
    refine ⟨rfl, by rintro ⟨⟩, fun x hx => ?_⟩
    rcases mem_append.mp hx with hx | hx
    · exact .inl hx
    · obtain rfl := mem_singleton.mp hx
      exact .inr hpc.2
  case decline => exact ⟨rfl, hpc rfl, fun i hi => .inl hi⟩
  case admissionFatal hs => cases hs.symm.trans hpc
  all_goals exact ⟨rfl, by first | exact hpc | trivial | rintro ⟨⟩, fun i hi => .inl hi⟩

/-- The source that a step of the worker takes away. -/
def ReinjectionPc.gone (ch : Choice) : ReinjectionPc P → Option ID
  | .receive i _ _ => if ch = .stopSource ∨ ch = .removeSource then some i.message.From else none
  | _ => none

variable {source : ID}

variable {peer : ℕ} {peers : ID → Option ℕ} {r : Result P (ReinjectionPc P)}

theorem Shared.Owns.remove (h : s.Owns id peer) :
    Shared.Owns { s with peers := update s.peers source none } id peer :=
  ⟨h.1, fun id' hid' => h.2 id' (update_none_eq_some hid')⟩

/-- **One step of the worker** keeps what is relied on about the other sources. -/
theorem ReinjectionMoves.kept_peers {pc : ReinjectionPc P} (h : ReinjectionMoves m s ch pc r)
    (hpc : pc.Sound m s) (howns : ∀ id peer, s.peers id = some peer → s.Owns id peer) :
    Kept (pc.gone ch) s r.shared := by
  cases h
  case stopSource i peer msg hch =>
    -- the peer is stopped: it is registered under this source, if at all
    subst hch
    refine ⟨rfl, id, id, id, fun _ _ _ hp => hp, fun id p hid hp hrun => ?_, fun _ _ => id, id⟩
    have hne : p ≠ peer := by
      rintro rfl
      exact hid (congrArg some (hpc.2 id hp).symm)
    exact (update_of_ne hne ..).trans hrun
  case removeSource i peer msg hch =>
    subst hch
    refine ⟨rfl, id, id, id, fun id p hid hp => ?_, fun _ _ _ _ hrun => hrun,
      fun _ _ => Shared.Owns.remove, fun _ id p hp => ?_⟩
    · have hne : id ≠ i.message.From := by
        rintro rfl
        exact hid rfl
      exact (update_of_ne hne ..).trans hp
    · exact (howns id p (update_none_eq_some hp)).remove
  all_goals exact .of_peers rfl rfl rfl rfl id id id

theorem ReinjectionMoves.sound {pc : ReinjectionPc P} (h : ReinjectionMoves m s ch pc r)
    (hpc : pc.Sound m s) (hpanic : ∀ i peer msg, pc = .receive i peer msg → ch ≠ .reactorPanic)
    (howns : ∀ id peer, s.peers id = some peer → s.Owns id peer)
    (hqueue : ∀ i ∈ s.callbackQueue.buf, s.Connected i.message.From ∧ m.Deliverable i) :
    r.fatal = none ∧ r.pc.Sound m r.shared ∧
      ∀ i ∈ r.shared.callbackQueue.buf, i ∈ s.callbackQueue.buf := by
  cases h
  case recv hb =>
    rw [hb] at hqueue ⊢
    exact ⟨rfl, hqueue _ (mem_cons_self ..), fun x hx => mem_cons_of_mem _ hx⟩
  case stranger hp =>
    obtain ⟨⟨peer, hpeer, -⟩, -⟩ := hpc
    cases hp.symm.trans hpeer
  case lookup hp =>
    obtain ⟨⟨peer, hpeer, hrun⟩, hd⟩ := hpc
    cases hp.symm.trans hpeer
    exact ⟨rfl, ⟨hpeer, hrun, hd⟩, fun _ => id⟩
  -- what can be delivered has a route, which decodes it and has a Reactor
  case noRoute hr =>
    obtain ⟨-, -, route, msg, hroute, -⟩ := hpc
    cases hr.symm.trans hroute
  case undecoded hr hd =>
    obtain ⟨-, -, route, msg, hroute, hdecode, -⟩ := hpc
    cases hr.symm.trans hroute
    cases hd.symm.trans hdecode
  case noReactor hr hreactor =>
    obtain ⟨-, -, route, msg, hroute, -, hreactor'⟩ := hpc
    cases hr.symm.trans hroute
    exact absurd hreactor' hreactor
  case disconnected hrun => exact absurd hpc.2.1 hrun
  case running => exact ⟨rfl, howns _ _ hpc.1, fun _ => id⟩
  case receive => exact ⟨rfl, rfl, fun _ => id⟩
  case removeSource => exact ⟨rfl, Shared.Owns.remove hpc, fun _ => id⟩
  case reactorPanic hch => exact absurd hch (hpanic _ _ _ rfl)
  case fatal => cases hpc
  all_goals exact ⟨rfl, by first | exact hpc | trivial, fun _ => id⟩

theorem LifecycleMoves.kept_peers {pc : LifecyclePc} {r : Result P LifecyclePc}
    (h : LifecycleMoves m s ch pc r) :
    Kept none s r.shared ∧ ∀ i ∈ r.shared.callbackQueue.buf, i ∈ s.callbackQueue.buf := by
  cases h
  case becomeReady =>
    exact ⟨.of_peers rfl rfl rfl rfl (fun _ _ => .inl rfl) (fun _ => rfl) id, fun _ => id⟩
  case flags =>
    exact ⟨.of_peers rfl rfl rfl rfl (fun _ _ => .inr rfl) id (fun _ => rfl), fun _ => id⟩
  case drainCallback hb =>
    refine ⟨.of_peers rfl rfl rfl rfl id id id, fun x hx => ?_⟩
    rw [hb]
    exact mem_cons_of_mem _ hx
  all_goals exact ⟨.of_peers rfl rfl rfl rfl id id id, fun _ => id⟩

/-! ### The invariant is kept -/

variable {st : State P}

/-- A step of a goroutine keeps the calm, if it leaves the goroutine sound, adds to the queue only
what can be delivered, and takes away no source of a callback in flight. -/
theorem State.Calm.move (hc : st.Calm m) {i : ℕ} {t : Thread P} {gone : Option ID}
    {r : Effect P} (hstep : t.step m st.shared ch = some r)
    (hkept : Kept gone st.shared r.shared) (hgone : ∀ id, gone = some id → st.inFlight id = false)
    (hfatal : r.thread.fatal = none) (hsound : r.thread.proc.Sound m r.shared)
    (hqueue : ∀ x ∈ r.shared.callbackQueue.buf, x ∈ st.shared.callbackQueue.buf ∨
      r.shared.Connected x.message.From ∧ m.Deliverable x)
    (hanswers : responded .aborted ∉ r.events) : (st.move i r).Calm m := by
  refine ⟨hkept.fatalErr.trans hc.fatalErr, hkept.ready hc.ready, hkept.registered hc.owns, ?_, ?_,
    fun k hk => ?_⟩
  · intro x hx
    rcases hqueue x hx with hold | hnew
    · obtain ⟨hconn, hdel⟩ := hc.queue x hold
      refine ⟨hkept.connected (fun hid => ?_) hconn, hdel⟩
      have hfree := hgone _ hid
      simp only [State.inFlight, Bool.or_eq_false_iff, any_eq_false, decide_eq_true_eq] at hfree
      exact hfree.1 x hold rfl
    · exact hnew
  · intro u hu
    rcases mem_append.mp hu with hu | hu
    · rcases mem_or_eq_of_mem_set hu with hu | rfl
      · obtain ⟨hf, hs⟩ := hc.threads u hu
        refine ⟨hf, hkept.sound (fun id hid => ?_) hs⟩
        have hfree := hgone _ hid
        simp only [State.inFlight, Bool.or_eq_false_iff, any_eq_false, decide_eq_true_eq]
          at hfree
        exact hfree.2 u hu
      · exact ⟨hfatal, hsound⟩
    · rcases Thread.mem_launched hstep hu with rfl | rfl | rfl <;> exact ⟨rfl, trivial⟩
  · rcases mem_append.mp hk with hold | hnew
    · exact hc.answers k hold
    · obtain ⟨e, he, heq⟩ := mem_map.mp hnew
      cases heq
      exact hanswers he

/-- A goroutine other than a handler or the worker, whose step raises no error. -/
theorem State.Calm.move_other (hc : st.Calm m) {i : ℕ} {t : Thread P} {r : Effect P}
    (hstep : t.step m st.shared ch = some r) (hkept : Kept none st.shared r.shared)
    (hfatal : r.thread.fatal = none) (hsound : r.thread.proc.Sound m r.shared)
    (hqueue : ∀ x ∈ r.shared.callbackQueue.buf, x ∈ st.shared.callbackQueue.buf)
    (hrole : t.role ≠ .serve) : (st.move i r).Calm m :=
  hc.move hstep hkept nofun hfatal hsound (fun x hx => .inl (hqueue x hx))
    fun hmem => hrole (of_decide_eq_true (Thread.step_reports hstep _ hmem))

theorem State.Calm.run (hm : m.Frozen) (hr : m.Reaches st) (hc : st.Calm m) {i : ℕ} {t : Thread P}
    {r : Effect P} (hi : st.threads[i]? = some t)
    (hstep : t.step m st.shared ch = some r) (hok : undisturbed m st (.run i ch) = true)
    (hiso : isolated m st (.run i ch) = true) : (st.move i r).Calm m := by
  obtain ⟨hfatal, hsound⟩ := hc.threads t (mem_of_getElem? hi)
  simp only [undisturbed, hi] at hok
  simp only [isolated, hi] at hiso
  cases Thread.stepped hstep with
  | fatal => cases hfatal
  | lifecycle hr' =>
    simp only [hstep, Option.all_some, Option.isNone_iff_eq_none] at hok
    obtain ⟨hkept, hqueue⟩ := hr'.kept_peers
    exact hc.move_other hstep hkept hok trivial hqueue fun hrole => by cases hrole
  | @serve pc r' hr' =>
    have hwithin : pc.Within m st.shared := by
      cases pc
      case slot | bytes => simpa [ServePc.Within] using hok
      case running outer peer =>
        intro hab
        simp [hab] at hiso
      all_goals trivial
    obtain ⟨hkept, hf, hs, hq, ha⟩ := hr'.sound hm hsound hwithin hc.fatalErr hc.ready
      (everReady_of_ready hr)
    exact hc.move hstep hkept (fun _ hid => by cases hid) (by simp [Thread.after, hf]) hs hq ha
  | @reinjection pc r' hr' =>
    have hpanic : ∀ x peer msg, pc = .receive x peer msg → ch ≠ .reactorPanic := by
      rintro x peer msg rfl
      exact of_decide_eq_true (Bool.and_eq_true_iff.mp hiso).1
    obtain ⟨hf, hs, hq⟩ := hr'.sound hsound hpanic hc.owns hc.queue
    refine hc.move hstep (hr'.kept_peers hsound hc.owns) (fun id hid => ?_)
      (by simp [Thread.after, hf]) hs (fun x hx => .inl (hq x hx)) fun hmem => by
        cases Thread.step_reports hstep _ hmem
    cases pc <;> try cases hid
    rename_i x peer msg
    simp only [ReinjectionPc.gone] at hid
    split at hid
    · rename_i hch
      cases hid
      rcases hch with rfl | rfl <;> simpa using hiso
    · cases hid
  | _ hr' =>
    simp only [hstep, Option.all_some, Option.isNone_iff_eq_none] at hok
    refine hc.move_other hstep ?_ hok trivial ?_ fun hrole => by cases hrole
    · cases hr' <;> exact .of_peers rfl rfl rfl rfl id id id
    · cases hr' <;> exact fun _ => id

theorem Shared.Owns.peerAdd (h : s.Owns id peer) : Shared.Owns { s with
    peers := update s.peers source (some s.nextPeer)
    running := update s.running s.nextPeer true
    nextPeer := s.nextPeer + 1 } id peer := by
  refine ⟨Nat.lt_succ_of_lt h.1, fun id' hid' => ?_⟩
  rcases update_eq_some hid' with ⟨-, rfl⟩ | ⟨-, hold⟩
  · exact absurd h.1 (lt_irrefl _)
  · exact h.2 id' hold

/-- A peer that is added takes a number of its own, and no peer gives way to it. -/
theorem kept_peerAdd (hnone : s.peers source = none)
    (howns : ∀ id peer, s.peers id = some peer → s.Owns id peer) :
    Kept none s { s with
      peers := update s.peers source (some s.nextPeer)
      running := update s.running s.nextPeer true
      nextPeer := s.nextPeer + 1 } where
  fatalErr := rfl
  ready := id
  everReady := id
  stopping := id
  peers id peer _ hp := update_of_none hnone hp _
  running id peer _ hp hrun := (update_of_ne (howns id peer hp).1.ne ..).trans hrun
  owns id peer h := h.peerAdd
  registered _ id peer hp := by
    rcases update_eq_some hp with ⟨rfl, rfl⟩ | ⟨-, hold⟩
    · refine ⟨Nat.lt_succ_self _, fun id' hid' => ?_⟩
      rcases update_eq_some hid' with ⟨rfl, -⟩ | ⟨-, hold⟩
      · rfl
      · exact absurd (howns id' _ hold).1 (lt_irrefl _)
    · exact (howns id peer hold).peerAdd

theorem State.Calm.world (hc : st.Calm m) {w : World} (hw : st.shared.world w = some s')
    (hok : undisturbed m st (.world w) = true) :
    State.Calm m { st with shared := st.shared.withWorld s' } := by
  rw [← Shared.world_footprint hw]
  have hkept : Kept none st.shared s' ∧ s'.callbackQueue = st.shared.callbackQueue := by
    cases w <;> dsimp only [Shared.world] at hw
    case peerAdd source =>
      split at hw <;> cases hw
      rename_i hnone
      exact ⟨kept_peerAdd hnone hc.owns, rfl⟩
    case readFatalC =>
      split at hw <;> cases hw
      exact ⟨.of_peers rfl rfl rfl rfl id id id, rfl⟩
    all_goals cases hok
  obtain ⟨hk, hq⟩ := hkept
  refine ⟨hk.fatalErr.trans hc.fatalErr, hk.ready hc.ready, hk.registered hc.owns, ?_, ?_,
    hc.answers⟩
  · intro x hx
    rw [hq] at hx
    exact ⟨hk.connected nofun (hc.queue x hx).1, (hc.queue x hx).2⟩
  · intro t ht
    exact ⟨(hc.threads t ht).1, hk.sound nofun (hc.threads t ht).2⟩

/-- `NewRoundStep` as it arrives. -/
structure NewRoundStep where
  height : ℤ
  round : ℤ
  step : ℕ
  secondsSinceStartTime : ℤ
  lastCommitRound : ℤ
  deriving DecidableEq, Repr

/-- `MsgFromProto`, with `ValidateBasic`, returned no error. -/
def NewRoundStep.msgFromProto (msg : NewRoundStep) : Bool :=
  decide (msg.step ≤ 255) && decide (0 ≤ msg.height) && decide (0 ≤ msg.round) &&
    decide (1 ≤ msg.step ∧ msg.step ≤ 8) && decide (-1 ≤ msg.lastCommitRound)

/-- `ValidateHeight` returned no error. -/
def NewRoundStep.validateHeight (msg : NewRoundStep) (initialHeight : ℤ) : Bool :=
  if msg.height < initialHeight then false
  else if msg.height = initialHeight ∧ msg.lastCommitRound ≠ -1 then false
  else if msg.height > initialHeight ∧ msg.lastCommitRound < 0 then false
  else true

/-- What the consensus Reactor's `Receive` does to the source of such a message: on an error it calls
`StopPeerForError`, which stops the peer and then removes it. -/
def NewRoundStep.receive (msg : NewRoundStep) (initialHeight : ℤ) : List Choice :=
  if msg.msgFromProto && msg.validateHeight initialHeight then [.go]
  else [.stopSource, .removeSource, .go]

end CometBFT.Mediation
