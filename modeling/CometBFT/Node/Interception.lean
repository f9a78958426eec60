import CometBFT.Node.Services

/-!
# Complete interception

A peer keeps the sink that the Switch had when the accept routine or a dial asked for it, for as long
as the peer lives. With a sink, `peer.send` hands every selected message to the mediation service
and `onReceive` rejects everything on a selected route. A peer built without one treats them as
ordinary traffic. `Node.OnStart` installs the sink before it starts the Switch; but its rollback, and
`Node.OnStop`, clear the sink while the Switch is still running, and a connection that comes up then
bypasses mediation.

## Main results

* `built_mediated` — as long as every read of the sink finds it installed, or the Switch stopped, no
  peer without a sink is ever started
* `interception_complete` — in such runs nothing selected passes by the mediation service
* `bypass_while_running` — the runs in which it does
-/

namespace CometBFT.Node

open Goroutines List Option Proc Mediation

variable {enabled : Bool} {s : Shared} {ch : Choice}

/-- Whenever an accept or a dial reads the sink, it is installed, or the Switch has been stopped. -/
def ReadsSink (st : State) : Action Choice Call World → Prop
  | .run i _ =>
    (st.threads[i]? = some (.connect true .readSink) ∨
      st.threads[i]? = some (.connect false .readSink)) →
      st.shared.mediation = true ∨ st.shared.sw.Halted
  | _ => True

instance (st : State) : (a : Action Choice Call World) → Decidable (ReadsSink st a)
  | .run _ _ => inferInstanceAs (Decidable (_ → _))
  | .call _ | .world _ => .isTrue trivial

/-! ### What becomes of a peer -/

/-- The peer exists and has a sink. -/
def Shared.Mediated (s : Shared) (p : ℕ) : Prop :=
  ∃ peer : Peer, s.peers[p]? = some peer ∧ peer.mediated = true

/-- From `s` to `s'` peers are kept, with the sink they were built with; new ones are not started,
and what is started is started because of `started`. -/
structure PeersKept (s s' : Shared) (started : ℕ → Prop) (built : Bool → Prop) : Prop where
  keep : ∀ (p : ℕ) (peer : Peer), s.peers[p]? = some peer →
    ∃ peer' : Peer, s'.peers[p]? = some peer' ∧ peer'.mediated = peer.mediated
  back : ∀ (p : ℕ) (peer' : Peer), s'.peers[p]? = some peer' →
    (∃ peer : Peer, s.peers[p]? = some peer ∧ peer'.mediated = peer.mediated ∧
      (peer'.started = true → peer.started = true ∨ started p)) ∨
    peer'.started = false ∧ built peer'.mediated

variable {s' : Shared} {started : ℕ → Prop} {built : Bool → Prop}

theorem PeersKept.of_eq (h : s'.peers = s.peers) : PeersKept s s' started built := by
  refine ⟨fun p peer hp => ⟨peer, h ▸ hp, rfl⟩, fun p peer hp => .inl ⟨peer, h ▸ hp, rfl, .inl⟩⟩

theorem PeersKept.of_modify {q : ℕ} {f : Peer → Peer} (h : s'.peers = s.peers.modify q f)
    (hf : ∀ peer, (f peer).mediated = peer.mediated)
    (hs : ∀ peer, (f peer).started = true → peer.started = true ∨ started q) :
    PeersKept s s' started built := by
  have hget : ∀ p, s'.peers[p]? = (s.peers[p]?).map fun peer => if p = q then f peer else peer := by
    intro p
    rw [h, getElem?_modify]
    cases s.peers[p]? <;> simp [eq_comm]
  constructor
  · intro p peer hp
    rw [hget, hp]
    by_cases hpq : p = q
    · exact ⟨f peer, by simp [hpq], hf peer⟩
    · exact ⟨peer, by simp [hpq], rfl⟩
  · intro p peer' hp
    rw [hget] at hp
    obtain ⟨peer, hpeer, rfl⟩ := map_eq_some_iff.mp hp
    refine .inl ⟨peer, hpeer, ?_⟩
    by_cases hpq : p = q
    · subst hpq
      simp only [if_true]
      exact ⟨hf peer, hs peer⟩
    · simp only [hpq, if_false]
      exact ⟨trivial, .inl⟩

theorem PeersKept.of_append {peer : Peer} (h : s'.peers = s.peers ++ [peer])
    (hs : peer.started = false) (hb : built peer.mediated) :
    PeersKept s s' started built := by
  constructor
  · intro p peer' hp
    have hlt : p < s.peers.length := (List.getElem?_eq_some_iff.mp hp).1
    exact ⟨peer', by rw [h, List.getElem?_append_left hlt, hp], rfl⟩
  · intro p peer' hp
    rw [h] at hp
    rcases lt_or_ge p s.peers.length with hlt | hge
    · rw [getElem?_append_left hlt] at hp
      exact .inl ⟨peer', hp, rfl, .inl⟩
    · rw [getElem?_append_right hge] at hp
      rw [mem_singleton.mp (mem_of_getElem? hp)]
      exact .inr ⟨hs, hb⟩

variable {p : ℕ}

theorem Shared.Mediated.mono (h : s.Mediated p) (hk : PeersKept s s' started built) :
    s'.Mediated p := by
  obtain ⟨peer, hp, hm⟩ := h
  obtain ⟨peer', hp', hm'⟩ := hk.keep p peer hp
  exact ⟨peer', hp', hm'.trans hm⟩

/-- The peer that a step starts. -/
def Proc.Starts (q : Proc) (p : ℕ) : Prop := ∃ inbound, q = .connect inbound (.startPeer p)

/-- The sink with which a step builds a peer. -/
def Proc.Builds (q : Proc) (m : Bool) : Prop := ∃ inbound, q = .connect inbound (.connecting m)

theorem connectStep_peers {inbound : Bool} {pc : ConnectPc} {r : Result ConnectPc}
    (h : connectStep inbound s ch pc = some r) :
    PeersKept s r.shared (connect inbound pc).Starts (connect inbound pc).Builds := by
  cases pc <;> dsimp only [connectStep] at h
  case connecting mediated =>
    split at h
    · cases h
      exact .of_append rfl rfl ⟨inbound, rfl⟩
    all_goals
      repeat' split at h
      all_goals cases h
      all_goals exact .of_eq rfl
  case startPeer p =>
    split at h <;> cases h
    · exact .of_modify rfl (fun _ => rfl) fun _ _ => .inr ⟨inbound, rfl⟩
    · exact .of_eq rfl
  case cleanup p =>
    cases h
    exact .of_modify rfl (fun _ => rfl) fun _ => .inl
  all_goals
    repeat' split at h
    all_goals cases h
    all_goals exact .of_eq rfl

theorem stopStep_peers {pc : StopPc} {r : Result StopPc} (h : stopStep s pc = some r) :
    PeersKept s r.shared started built := by
  unfold stopStep at h
  split at h
  all_goals
    repeat' split at h
    all_goals cases h
    all_goals
      first
      | exact .of_eq rfl
      | exact .of_modify rfl (fun _ => rfl) fun _ => .inl

theorem Proc.step_peers {p : Proc} {o : Effect Shared Proc Event}
    (h : p.step enabled s ch = some o) : PeersKept s o.shared p.Starts p.Builds := by
  cases stepped h with
  | start hr => exact .of_eq (startStep_frame hr).2.1
  | stop hr => exact stopStep_peers hr
  | recordFatal => exact .of_eq rfl
  | fatalStop hr =>
    rcases fatalStep_cases hr with ⟨pc', r', rfl, hr', rfl⟩ | ⟨-, hs, -⟩
    · exact stopStep_peers hr'
    · exact .of_eq (congrArg Shared.peers hs)
  | wait hr =>
    rcases waitStep_cases hr with ⟨pc', r', rfl, hr', rfl⟩ | ⟨-, ⟨b, hs⟩, -⟩
    · exact stopStep_peers hr'
    · exact .of_eq (by rw [Result.toEffect, hs])
  | connect hr => exact connectStep_peers hr
  | send hr => exact .of_eq (congrArg Shared.peers (sendStep_quiet hr).shared)
  | receive hr => exact .of_eq (congrArg Shared.peers (receiveStep_quiet hr).shared)

theorem Shared.world_peers {w : World} (h : s.world w = some s') :
    PeersKept s s' started built := by
  cases w <;> cases h
  · exact .of_eq rfl
  · exact .of_modify rfl (fun _ => rfl) fun _ => .inl

/-! ### The invariant -/

/-- A selected message went to the connection, or bytes on a selected route reached a Reactor. -/
def Event.bypasses : Event → Bool
  | .mconnSend _ channelID type _ => selected channelID type
  | .received _ channelID _ => selectedRoute channelID
  | _ => false

/-- What a goroutine relies on about the peer it deals with. -/
def Proc.Safe (s : Shared) : Proc → Prop
  | .connect _ (.connecting mediated) => mediated = true ∨ s.sw.Halted
  | .connect _ (.count p) | .connect _ (.filter p) | .connect _ (.loadStarted p)
  | .connect _ (.loadStopped p) => p < s.peers.length
  | .connect _ (.startPeer p) => s.Mediated p
  | .send p _ _ .loadStopped | .send p _ _ .route => s.Mediated p
  | .receive p _ .onReceive => s.Mediated p
  | _ => True

/-- A peer without a sink was built for a Switch that has been stopped, and is never started. -/
def Shared.Built (s : Shared) : Prop :=
  ∀ (p : ℕ) (peer : Peer), s.peers[p]? = some peer →
    peer.mediated = true ∨ s.sw.Halted ∧ peer.started = false

theorem PeersKept.length_le (hk : PeersKept s s' started built) :
    s.peers.length ≤ s'.peers.length := by
  by_contra hlt
  rw [not_le] at hlt
  obtain ⟨peer', hp', -⟩ := hk.keep _ _ (getElem?_eq_getElem hlt)
  exact absurd (List.getElem?_eq_some_iff.mp hp').1 (lt_irrefl _)

theorem Proc.Safe.mono {q : Proc} (h : q.Safe s) (hk : PeersKept s s' started built)
    (hh : s.sw.Halted → s'.sw.Halted) :
    q.Safe s' := by
  unfold Proc.Safe at h ⊢
  split at h
  · exact h.imp_right hh
  iterate 4 exact h.trans_le hk.length_le
  iterate 4 exact h.mono hk
  · trivial

theorem Shared.Built.mediated (h : s.Built) {peer : Peer} (hp : s.peers[p]? = some peer)
    (hs : peer.started = true) : s.Mediated p := by
  rcases h p peer hp with hm | ⟨-, hns⟩
  · exact ⟨peer, hp, hm⟩
  · rw [hs] at hns
    cases hns

theorem safe_finished (inbound : Bool) : (connect inbound (connectStep.finished inbound)).Safe s := by
  cases inbound <;> trivial

theorem connectStep_safe {inbound : Bool} {pc : ConnectPc} {r : Result ConnectPc}
    (h : connectStep inbound s ch pc = some r) (hb : s.Built)
    (hsafe : (connect inbound pc).Safe s)
    (hread : pc = .readSink → s.mediation = true ∨ s.sw.Halted) :
    (connect inbound r.pc).Safe r.shared := by
  cases pc <;> dsimp only [connectStep] at h
  case readSink =>
    cases h
    exact hread rfl
  case connecting mediated =>
    split at h
    · cases h
      have hlt (peer : Peer) : s.peers.length < (s.peers ++ [peer]).length := by
        rw [length_append]
        exact Nat.lt_succ_self _
      cases inbound <;> exact hlt _
    all_goals
      repeat' split at h
      all_goals cases h
      all_goals first | exact safe_finished inbound | trivial
  case loadStarted p =>
    cases h
    rw [Result.to_pc]
    split
    · exact hsafe
    · exact safe_finished inbound
  case loadStopped p =>
    cases h
    rw [Result.to_pc]
    split
    · exact safe_finished inbound
    · rename_i hns
      -- the Switch is not stopped, so the peer was built with a sink
      have hp := getElem?_eq_getElem (show p < s.peers.length from hsafe)
      rcases hb p _ hp with hm | ⟨hh, -⟩
      · exact ⟨_, hp, hm⟩
      · exact absurd hh.2 hns
  all_goals
    repeat' split at h
    all_goals cases h
    all_goals first | exact safe_finished inbound | exact hsafe | trivial

theorem sendStep_safe {channelID : UInt8} {type : Mediation.MsgType} {pc : SendPc}
    {r : Result SendPc} (h : sendStep s ch p channelID type pc = some r) (hb : s.Built)
    (hsafe : (send p channelID type pc).Safe s) :
    (send p channelID type r.pc).Safe r.shared ∧ ∀ e ∈ r.events, e.bypasses = false := by
  cases pc <;> dsimp only [sendStep] at h
  case loadStarted =>
    obtain ⟨peer, hp, rfl⟩ := map_eq_some_iff.mp h
    refine ⟨?_, forall_mem_nil _⟩
    rw [Result.to_pc]
    split
    · exact hb.mediated hp ‹_›
    · trivial
  case loadStopped =>
    obtain ⟨peer, hp, rfl⟩ := map_eq_some_iff.mp h
    refine ⟨?_, forall_mem_nil _⟩
    rw [Result.to_pc]
    split
    · trivial
    · exact hsafe
  case route =>
    obtain ⟨peer, hp, hm⟩ := hsafe
    simp only [hp, Option.bind_some, hm, Bool.true_and] at h
    repeat' split at h
    all_goals cases h
    all_goals refine ⟨trivial, ?_⟩
    · exact forall_mem_nil _
    · exact forall_mem_singleton.mpr rfl
    · rename_i hsel
      exact forall_mem_singleton.mpr (Bool.not_eq_true _ ▸ hsel)
    · exact forall_mem_nil _
  case done => cases h

theorem receiveStep_safe {channelID : UInt8} {pc : ReceivePc} {r : Result ReceivePc}
    (h : receiveStep s ch p channelID pc = some r) (hb : s.Built)
    (hsafe : (receive p channelID pc).Safe s) :
    (receive p channelID r.pc).Safe r.shared ∧ ∀ e ∈ r.events, e.bypasses = false := by
  cases pc <;> dsimp only [receiveStep] at h
  case packet =>
    obtain ⟨peer, hp, h⟩ := bind_eq_some_iff.mp h
    split at h <;> cases h
    exact ⟨hb.mediated hp ‹_›, forall_mem_nil _⟩
  case onReceive =>
    obtain ⟨peer, hp, hm⟩ := hsafe
    simp only [hp, Option.bind_some, hm, Bool.true_and] at h
    repeat' split at h
    all_goals cases h
    all_goals refine ⟨trivial, ?_⟩
    · exact forall_mem_singleton.mpr rfl
    · rename_i hsel _
      exact forall_mem_singleton.mpr (Bool.not_eq_true _ ▸ hsel)
    · exact forall_mem_nil _
  case done => cases h

theorem safe_afterStart (command : Bool) (pc : StartPc) :
    (afterStart enabled command pc).Safe s := by
  unfold afterStart
  split
  · split <;> trivial
  · trivial

/-- One step of a goroutine, on a Switch whose peers were built as they should be. -/
theorem Proc.step_safe {q : Proc} {o : Effect Shared Proc Event}
    (h : q.step enabled s ch = some o) (hb : s.Built) (hsafe : q.Safe s)
    (hread : ∀ inbound, q = .connect inbound .readSink → s.mediation = true ∨ s.sw.Halted) :
    o.thread.Safe o.shared ∧ ∀ e ∈ o.events, e.bypasses = false := by
  have hevs : (∀ p c t, q ≠ .send p c t .route) → (∀ p c, q ≠ .receive p c .onReceive) →
      ∀ e ∈ o.events, e.bypasses = false := by
    intro hs hr e he
    have hrep := reportedBy_of_mem h he
    cases e <;> first | rfl | exact absurd hrep (hs _ _ _) | exact absurd hrep (hr _ _)
  cases stepped h with
  | @start command pc r hr =>
    refine ⟨?_, hevs (fun _ _ _ => nofun) fun _ _ => nofun⟩
    exact safe_afterStart command r.pc
  | @connect inbound pc r hr =>
    exact ⟨connectStep_safe hr hb hsafe fun h => hread inbound (h ▸ rfl),
      hevs (fun _ _ _ => nofun) fun _ _ => nofun⟩
  | send hr => exact sendStep_safe hr hb hsafe
  | receive hr => exact receiveStep_safe hr hb hsafe
  | _ => exact ⟨trivial, hevs (fun _ _ _ => nofun) fun _ _ => nofun⟩

/-- The state of a node that has always intercepted. -/
structure Intercepting (st : State) : Prop where
  built : st.shared.Built
  safe : ∀ (i : ℕ) q, st.threads[i]? = some q → q.Safe st.shared
  trace : ∀ e ∈ st.trace, e.2.bypasses = false

theorem Shared.Built.step {q : Proc} (hb : s.Built) (hsafe : q.Safe s)
    (hk : PeersKept s s' q.Starts q.Builds) (hh : s.sw.Halted → s'.sw.Halted) : s'.Built := by
  intro p peer' hp'
  rcases hk.back p peer' hp' with ⟨peer, hp, hm, hs⟩ | ⟨hns, inbound, rfl⟩
  · rcases hb p peer hp with hmed | ⟨hhalt, hns⟩
    · exact .inl (hm.trans hmed)
    · by_cases hst : peer'.started = true
      · rcases hs hst with h | ⟨inbound, rfl⟩
        · rw [hns] at h
          cases h
        · obtain ⟨peer₂, hp₂, hm₂⟩ := hsafe
          obtain rfl := some.inj (hp.symm.trans hp₂)
          exact .inl (hm.trans hm₂)
      · exact .inr ⟨hh hhalt, by simpa using hst⟩
  · rcases hsafe with hm | hhalt
    · exact .inl hm
    · exact .inr ⟨hh hhalt, hns⟩

/-- **No peer without a sink is ever started**, and nothing passes by the mediation service. -/
theorem built_mediated {st : State} (hr : (machine enabled).Runs ReadsSink {} st) :
    Intercepting st := by
  refine Machine.invariant ⟨?_, ?_, ?_⟩ ?_ ?_ ?_ hr
  · intro p peer hp
    cases hp
  · intro i q hi
    cases hi
  · exact forall_mem_nil _
  · intro st c _ ih
    refine ⟨ih.built, fun i q hi => ?_, ih.trace⟩
    rcases mem_append.mp (mem_of_getElem? hi) with hmem | hmem
    · obtain ⟨j, hj⟩ := getElem?_of_mem hmem
      exact ih.safe j q hj
    · rw [mem_singleton.mp hmem]
      cases c <;> trivial
  · intro st w s' _ ih hs
    have hk : PeersKept st.shared s' (recorded).Starts (recorded).Builds :=
      Shared.world_peers hs
    rw [(machine true).owned_world hs] at hk
    exact ⟨ih.built.step (q := .recorded) trivial hk id,
      fun i q hi => (ih.safe i q hi).mono hk id, ih.trace⟩
  · rintro st i ch q o ⟨hr, -, hok, hi, ho⟩ ih
    have hk := step_peers ho
    have hh := halted_stays hr hi ho
    have hsafe := ih.safe i q hi
    obtain ⟨hself, hevs⟩ := step_safe ho ih.built hsafe fun inbound hq =>
      hok (by cases inbound <;> simp [hi, hq])
    refine ⟨ih.built.step hsafe hk hh, fun j u hj => ?_, fun e he => ?_⟩
    · rcases Pool.getElem?_move hi hj with ⟨rfl, rfl⟩ | ⟨-, hj'⟩ | ⟨-, hu⟩
      · exact hself
      · exact (ih.safe j u hj').mono hk hh
      · rcases step_launched ho u hu with rfl | rfl <;> trivial
    · rcases mem_append.mp he with he | he
      · exact ih.trace e he
      · obtain ⟨e', he', rfl⟩ := mem_map.mp he
        exact hevs e' he'

/-- **Complete interception.** In every run of a node with mediation in which each accept and each
dial reads the sink while it is installed or the Switch has been stopped, no selected message is
handed to `MConnection.Send` or `TrySend`, and no bytes from a connection on a selected route reach
`Reactor.Receive`. -/
theorem interception_complete {st : State} (hr : (machine true).Runs ReadsSink {} st) :
    (∀ i p channelID type running, (i, Event.mconnSend p channelID type running) ∈ st.trace →
      selectedMessageBinding type = none) ∧
    (∀ i p channelID running, (i, Event.received p channelID running) ∈ st.trace →
      channelID ∉ selectedControllerRoutes) := by
  have h := (built_mediated hr).trace
  constructor
  · intro i p channelID type running he
    have := h _ he
    rwa [Event.bypasses, selected, isSome_eq_false_iff, isNone_iff_eq_none]
      at this
  · intro i p channelID running he hmem
    have := h _ he
    rw [Event.bypasses, selectedRoute, contains_iff_mem.mpr hmem] at this
    cases this

/-- Goroutine `1` accepts a connection from a node that knows the vote channel. -/
def acceptRun : List (Action Choice Call World) :=
  [go 1, .run 1 (.conn [1] [voteChannel])] ++ replicate 6 (go 1)

/-- Goroutine `i` sends a vote to the first peer, and goroutine `i + 1` receives one from it. -/
def trafficRun (i : ℕ) : List (Action Choice Call World) :=
  [.call (.send 0 voteChannel .vote), go i, go i, go i,
    .call (.packet 0 voteChannel), go (i + 1), go (i + 1)]

theorem interception_complete_sample :
    let st := (execWhere (machine true).next ReadsSink (start {})
      (startRun ++ acceptRun ++ trafficRun 2)).getD (start {})
    st.trace = [(2, .submitted 0 voteChannel .vote),
      (3, .directInboundRejected 0 voteChannel)] ∧
    (∀ i p channelID type running, (i, Event.mconnSend p channelID type running) ∈ st.trace →
      selectedMessageBinding type = none) ∧
    (∀ i p channelID running, (i, Event.received p channelID running) ∈ st.trace →
      channelID ∉ selectedControllerRoutes) :=
  ⟨by decide, interception_complete (steps_execWhere (by decide))⟩

/-! ### Connections that come up without a sink -/

/-- `Stop` has cleared the sink and is still stopping the mediation service. -/
def clearingRun : List (Action Choice Call World) := startRun ++ .call .stop :: replicate 4 (go 2)

/-- `OnStart` has failed after the Switch was started: the sink is cleared, and the Switch runs on. -/
def rollbackRun : List (Action Choice Call World) :=
  .call .runNode :: replicate 11 (go 0) ++ .run 0 .fail :: replicate 4 (go 0)

/-- **Bypass.** In both cases a connection that is accepted now carries votes to the other node and
into the Reactor, while the Switch is running. -/
theorem bypass_while_running :
    (let st := (exec (machine true).next (start {}) (clearingRun ++ acceptRun ++ trafficRun 3)).getD
        (start {});
      st.trace = [(3, .mconnSend 0 voteChannel .vote true),
        (4, .received 0 voteChannel true)] ∧
      st.threads[2]? = some (.stop .stopMediation)) ∧
    (let st := (exec (machine true).next (start {}) (rollbackRun ++ acceptRun ++ trafficRun 2)).getD
        (start {});
      st.trace = [(2, .mconnSend 0 voteChannel .vote true),
        (3, .received 0 voteChannel true)] ∧
      st.threads[0]? = some (.start true (.returned (some .dial)))) := by
  decide

end CometBFT.Node
