import Mathlib.Data.Finset.Insert
import CometBFT.Lib.Cache
import CometBFT.Lib.IndexedTable
import CometBFT.Lib.Runs

/-!
# The peers of the switch

`p2p/switch.go` and `p2p/peer_set.go`. Each connection the transport accepts or dials is a peer of
its own, with the ID of the node on the other side. `addPeer` takes it through the filters, starts
it, puts it in the set of peers and then tells every reactor; an error on the way has the caller
clean up and stop it. Meanwhile the routines of the connection may report an error, and anyone may
stop the peer: `stopAndRemovePeer` tells every reactor that it is gone and removes *its ID* from the
set.

Every call is a goroutine of its own, and a step below is one access to what they share: the
`started` and `stopped` flags of the peer, the set of peers under its mutex, a call to a reactor.
The two threads of one connection are `AddPc`, where `addPeer` and the clean-up of its caller are,
and `StopPc`, where the goroutine that set `stopped` is; one that finds `stopped` set returns at
once. A stop of the whole switch is a graceful stop of every peer.

A peer runs before it is in the set. So a connection the set rejects as a duplicate can report an
error, and then the other connection with its ID goes; and a reactor can be told that a peer is gone
before it is told that the peer is there.

## Main results

* `Switch.Budgeted.step` — whatever is stopped when, no ID is in the set twice, and no reactor is
  told twice that a peer is there, or twice that it is gone
* `Switch.undisturbed_of_steps` — if a peer is stopped only after `addPeer` has returned,
  connections with the same ID leave each other alone
-/

namespace CometBFT.P2P

open List Option Prod

open Function (update update_of_ne update_self)

variable {ID R : Type} [DecidableEq ID] [DecidableEq R]

/-! ### One connection -/

/-- Where `addPeer` is, or its caller if it has failed. -/
inductive AddPc (R : Type) where
  /-- `transport.Accept` or `transport.Dial` has returned the peer. -/
  | connected
  /-- `filterPeer` has let it pass. -/
  | filtered
  /-- The switch was running; the reactors have initialised the peer. -/
  | initialised
  /-- `Start` has set `started`. -/
  | starting
  /-- `Start` has failed after that. -/
  | startFailed
  | started
  /-- In the set; these reactors are still to be told. -/
  | adding (rest : List R)
  | added
  | failed
  /-- `transport.Cleanup` has closed the connection. -/
  | cleaned
  /-- It was still running: to be stopped. -/
  | rejected
  /-- No goroutine is busy with adding it. -/
  | left
  deriving DecidableEq

/-- Where the goroutine that set `stopped` is. -/
inductive StopPc (R : Type) where
  /-- There is none: `stopped` is not set. -/
  | idle
  /-- Set, by `stopAndRemovePeer` or else by the caller of `addPeer`. -/
  | claimed (removes : Bool)
  /-- The peer was not started: `stopped` is set back. -/
  | reverting
  /-- These reactors are still to be told, and then the set. -/
  | removing (rest : List R)
  | stopped
  deriving DecidableEq

structure Conn (ID R : Type) where
  id : ID
  pc : AddPc R := .connected
  started : Bool := false
  stopping : StopPc R := .idle
  /-- Calls of `StopPeerForError` that have seen the peer running and not stopped it yet. -/
  reporters : ℕ := 0
  removalFailed : Bool := false
  deriving DecidableEq

/-- The connections in the set, each with its ID. -/
abbrev PeerSet (ID : Type) := IndexedTable (ℕ × ID) ID

/-- What the reactors and the set see of a run. -/
inductive Note (R : Type) where
  | addPeer (r : R) (c : ℕ)
  | removePeer (r : R) (c : ℕ)
  /-- The set has got `c`. -/
  | entered (c : ℕ)
  /-- The set has lost `c`, for the sake of stopping `by`. -/
  | removed (c by' : ℕ)
  deriving DecidableEq

/-- The connection whose goroutine it was. -/
def Note.conn : Note R → ℕ
  | .addPeer _ c | .removePeer _ c | .entered c | .removed _ c => c

inductive ConnEvent (R : Type) where
  /-- There are enough inbound peers. -/
  | turnAway
  | filterPeer (pass : Bool)
  | checkRunning
  | start
  | onStart (ok : Bool)
  | revertStart
  | add (order : List R)
  | addPeer
  | cleanup
  | isRunning
  | stopRejected
  /-- `StopPeerForError` sees that the peer is running. -/
  | report
  | stopForError
  | stopGracefully
  | onStop (order : List R)
  | revertStop
  | removePeer
  deriving DecidableEq

/-- Does it begin to stop the peer, other than for the caller of `addPeer`? -/
def ConnEvent.stops : ConnEvent R → Bool
  | .report | .stopGracefully => true
  | _ => false

/-- A loop over the map of reactors meets each once, in any order. -/
def IsOrder (reactors : Finset R) (order : List R) : Prop := order.Nodup ∧ order.toFinset = reactors

instance (reactors : Finset R) (order : List R) : Decidable (IsOrder reactors order) :=
  inferInstanceAs (Decidable (_ ∧ _))

namespace Conn

def isRunning (k : Conn ID R) : Bool := k.started && decide (k.stopping = .idle)

/-- One step of a goroutine that is busy with connection `c`: the connection, the set, and what is
seen of it. -/
def next (reactors : Finset R) (running : Bool) (peers : PeerSet ID) (c : ℕ) (k : Conn ID R) :
    ConnEvent R → Option (Conn ID R × PeerSet ID × List (Note R))
  | .turnAway => if k.pc = .connected then some ({ k with pc := .left }, peers, []) else none
  | .filterPeer pass =>
    if k.pc = .connected then
      some ({ k with pc := if (peers.get k.id).isNone && pass then .filtered else .failed },
        peers, [])
    else none
  | .checkRunning =>
    if k.pc = .filtered then
      -- `addPeer` returns no error if the switch has stopped: nothing is cleaned up
      some ({ k with pc := if running then .initialised else .left }, peers, [])
    else none
  | .start =>
    if k.pc = .initialised then
      if k.started then some ({ k with pc := .failed }, peers, [])
      else some ({ k with pc := .starting, started := true }, peers, [])
    else none
  | .onStart ok =>
    if k.pc = .starting then
      some ({ k with pc := if decide (k.stopping = .idle) && ok then .started else .startFailed },
        peers, [])
    else none
  | .revertStart =>
    if k.pc = .startFailed then some ({ k with pc := .failed, started := false }, peers, [])
    else none
  | .add order =>
    if k.pc = .started ∧ IsOrder reactors order then
      if (peers.get k.id).isSome || k.removalFailed then some ({ k with pc := .failed }, peers, [])
      else some ({ k with pc := .adding order }, peers.add snd (c, k.id), [.entered c])
    else none
  | .addPeer =>
    match k.pc with
    | .adding [] => some ({ k with pc := .added }, peers, [])
    | .adding (r :: rest) => some ({ k with pc := .adding rest }, peers, [.addPeer r c])
    | _ => none
  | .cleanup => if k.pc = .failed then some ({ k with pc := .cleaned }, peers, []) else none
  | .isRunning =>
    if k.pc = .cleaned then
      some ({ k with pc := if k.isRunning then .rejected else .left }, peers, [])
    else none
  | .stopRejected =>
    if k.pc = .rejected then
      if k.stopping = .idle then
        some ({ k with pc := .left, stopping := .claimed false }, peers, [])
      else some ({ k with pc := .left }, peers, [])
    else none
  | .report =>
    if k.isRunning then some ({ k with reporters := k.reporters + 1 }, peers, []) else none
  | .stopForError =>
    match k.reporters with
    | 0 => none
    | n + 1 =>
      if k.stopping = .idle then
        some ({ k with reporters := n, stopping := .claimed true }, peers, [])
      else some ({ k with reporters := n }, peers, [])
  | .stopGracefully =>
    if k.stopping = .idle then some ({ k with stopping := .claimed true }, peers, []) else none
  | .onStop order =>
    match k.stopping with
    | .claimed removes =>
      if IsOrder reactors order then
        if k.started then
          some ({ k with stopping := if removes then .removing order else .stopped }, peers, [])
        else some ({ k with stopping := .reverting }, peers, [])
      else none
    | _ => none
  | .revertStop =>
    if k.stopping = .reverting then some ({ k with stopping := .idle }, peers, []) else none
  | .removePeer =>
    match k.stopping with
    | .removing (r :: rest) =>
      some ({ k with stopping := .removing rest }, peers, [.removePeer r c])
    | .removing [] =>
      match peers.get k.id, peers.remove snd k.id with
      | some (v, _), some (peers', true) =>
        some ({ k with stopping := .stopped }, peers', [.removed v c])
      | _, some (peers', _) =>
        some ({ k with stopping := .stopped, removalFailed := true }, peers', [])
      | _, none => none
    | _ => none

end Conn

/-! ### The switch -/

structure Switch (ID R : Type) where
  conns : ℕ → Option (Conn ID R) := fun _ => none
  peers : PeerSet ID := {}
  running : Bool := true
  trace : List (Note R) := []

inductive Event (ID R : Type) where
  /-- The transport has a new connection to the node `id`. -/
  | connect (c : ℕ) (id : ID)
  | on (c : ℕ) (e : ConnEvent R)
  /-- The switch is told to stop. -/
  | stop

namespace Switch

def next (reactors : Finset R) (s : Switch ID R) : Event ID R → Option (Switch ID R)
  | .connect c id =>
    match s.conns c with
    | none => some { s with conns := update s.conns c (some { id }) }
    | some _ => none
  | .on c e =>
    match s.conns c with
    | none => none
    | some k => (k.next reactors s.running s.peers c e).map fun o =>
      { s with conns := update s.conns c (some o.1), peers := o.2.1,
               trace := s.trace ++ o.2.2 }
  | .stop => some { s with running := false }

end Switch

/-! ### What a step of a connection can do -/

/-- Has the peer not been given to the set yet, with `addPeer` on the way there? -/
def AddPc.early : AddPc R → Bool
  | .connected | .filtered | .initialised | .starting | .started => true
  | _ => false

/-- Has the set got the peer? -/
def AddPc.inside : AddPc R → Bool
  | .adding _ | .added => true
  | _ => false

/-- Is the peer being stopped by `stopAndRemovePeer`, before it has told the set? -/
def StopPc.leaving : StopPc R → Bool
  | .claimed true | .removing _ => true
  | _ => false

namespace Conn

variable {reactors : Finset R} {running : Bool} {peers : PeerSet ID} {c : ℕ} {k : Conn ID R}
  {e : ConnEvent R} {o : Conn ID R × PeerSet ID × List (Note R)}

/-- The steps of a connection, as far as the set and the reactors are concerned. -/
inductive Moves (peers : PeerSet ID) (c : ℕ) (k : Conn ID R) (e : ConnEvent R) :
    Conn ID R × PeerSet ID × List (Note R) → Prop where
  | walk (pc : AddPc R) (started : Bool) (hk : k.pc.inside = false) (hleft : k.pc ≠ .left)
      (hpc : pc.inside = false) (hearly : pc.early = true → k.pc.early = true) :
      Moves peers c k e ({ k with pc, started }, peers, [])
  | reject (hk : k.pc = .rejected) (hidle : k.stopping = .idle) :
      Moves peers c k e ({ k with pc := .left, stopping := .claimed false }, peers, [])
  | enter (order : List R) (hk : k.pc = .started) (horder : order.Nodup)
      (hnone : peers.get k.id = none) :
      Moves peers c k e
        ({ k with pc := .adding order }, peers.add snd (c, k.id), [.entered c])
  | call (r : R) (rest : List R) (hk : k.pc = .adding (r :: rest)) :
      Moves peers c k e ({ k with pc := .adding rest }, peers, [.addPeer r c])
  | finish (hk : k.pc = .adding []) :
      Moves peers c k e ({ k with pc := .added }, peers, [])
  | report (he : e = .report) :
      Moves peers c k e ({ k with reporters := k.reporters + 1 }, peers, [])
  | late (n : ℕ) (hn : k.reporters = n + 1) :
      Moves peers c k e ({ k with reporters := n }, peers, [])
  | claimForError (n : ℕ) (hn : k.reporters = n + 1) (hidle : k.stopping = .idle) :
      Moves peers c k e ({ k with reporters := n, stopping := .claimed true }, peers, [])
  | claim (he : e = .stopGracefully) (hidle : k.stopping = .idle) :
      Moves peers c k e ({ k with stopping := .claimed true }, peers, [])
  | revert (removes : Bool) (hk : k.stopping = .claimed removes) :
      Moves peers c k e ({ k with stopping := .reverting }, peers, [])
  | reverted (hk : k.stopping = .reverting) :
      Moves peers c k e ({ k with stopping := .idle }, peers, [])
  | stopped (hk : k.stopping = .claimed false) :
      Moves peers c k e ({ k with stopping := .stopped }, peers, [])
  | remove (order : List R) (hk : k.stopping = .claimed true) (horder : order.Nodup) :
      Moves peers c k e ({ k with stopping := .removing order }, peers, [])
  | tell (r : R) (rest : List R) (hk : k.stopping = .removing (r :: rest)) :
      Moves peers c k e ({ k with stopping := .removing rest }, peers, [.removePeer r c])
  | removed (v : ℕ × ID) (peers' : PeerSet ID) (hk : k.stopping = .removing [])
      (hv : peers.get k.id = some v) (hpeers : peers.remove snd k.id = some (peers', true)) :
      Moves peers c k e ({ k with stopping := .stopped }, peers', [.removed v.1 c])
  | notRemoved (hk : k.stopping = .removing []) (hnone : peers.get k.id = none) :
      Moves peers c k e ({ k with stopping := .stopped, removalFailed := true }, peers, [])

omit [DecidableEq R] in
theorem Moves.along {p : AddPc R} (h : k.pc = p) (pc : AddPc R) (started : Bool)
    (hp : p.inside = false) (hleft : p ≠ .left) (hpc : pc.inside = false)
    (hearly : pc.early = true → p.early = true) :
    Moves peers c k e ({ k with pc, started }, peers, []) := by
  subst h
  exact .walk pc started hp hleft hpc hearly

/-- **What a step can do.** -/
theorem moves_of_next (hc : peers.Consistent snd)
    (h : k.next reactors running peers c e = some o) : Moves peers c k e o := by
  cases e with
  | turnAway =>
    obtain ⟨hk, ⟨⟩⟩ := ite_none_right_eq_some.mp h
    exact .along hk .left k.started rfl nofun rfl nofun
  | start =>
    obtain ⟨hk, h⟩ := ite_none_right_eq_some.mp h
    split at h
    · cases h
      exact .along hk .failed k.started rfl nofun rfl nofun
    · cases h
      exact .along hk .starting true rfl nofun rfl fun _ => rfl
  | revertStart =>
    obtain ⟨hk, ⟨⟩⟩ := ite_none_right_eq_some.mp h
    exact .along hk .failed false rfl nofun rfl nofun
  | add order =>
    obtain ⟨⟨hk, horder⟩, h⟩ := ite_none_right_eq_some.mp h
    split at h
    · cases h
      exact .along hk .failed k.started rfl nofun rfl nofun
    · rename_i hnot
      cases h
      rw [Bool.or_eq_true, not_or, not_isSome_iff_eq_none] at hnot
      exact .enter order hk horder.1 hnot.1
  | addPeer =>
    simp only [next] at h
    split at h
    · rename_i hk
      cases h
      exact .finish hk
    · rename_i r rest hk
      cases h
      exact .call r rest hk
    · cases h
  | cleanup =>
    obtain ⟨hk, ⟨⟩⟩ := ite_none_right_eq_some.mp h
    exact .along hk .cleaned k.started rfl nofun rfl nofun
  | isRunning =>
    obtain ⟨hk, ⟨⟩⟩ := ite_none_right_eq_some.mp h
    refine .along hk _ k.started rfl nofun ?_ ?_
    · split <;> rfl
    · split <;> exact nofun
  | stopRejected =>
    obtain ⟨hk, h⟩ := ite_none_right_eq_some.mp h
    split at h
    · rename_i hidle
      cases h
      exact .reject hk hidle
    · cases h
      exact .along hk .left k.started rfl nofun rfl nofun
  | report =>
    obtain ⟨-, ⟨⟩⟩ := ite_none_right_eq_some.mp h
    exact .report rfl
  | stopForError =>
    simp only [next] at h
    split at h
    · cases h
    · rename_i n hn
      split at h
      · rename_i hidle
        cases h
        exact .claimForError n hn hidle
      · cases h
        exact .late n hn
  | stopGracefully =>
    obtain ⟨hidle, ⟨⟩⟩ := ite_none_right_eq_some.mp h
    exact .claim rfl hidle
  | onStop order =>
    simp only [next] at h
    split at h
    · rename_i removes hk
      obtain ⟨horder, h⟩ := ite_none_right_eq_some.mp h
      split at h
      · cases h
        cases removes with
        | false => exact .stopped hk
        | true => exact .remove order hk horder.1
      · cases h
        exact .revert removes hk
    · cases h
  | revertStop =>
    obtain ⟨hk, ⟨⟩⟩ := ite_none_right_eq_some.mp h
    exact .reverted hk
  | removePeer =>
    simp only [next] at h
    split at h
    · rename_i r rest hk
      cases h
      exact .tell r rest hk
    · rename_i hk
      cases hv : peers.get k.id with
      | none =>
        rw [hv, IndexedTable.remove_of_none hv] at h
        cases h
        exact .notRemoved hk hv
      | some v =>
        obtain ⟨peers', hpeers, -, -⟩ := hc.remove hv
        rw [hv, hpeers] at h
        cases h
        exact .removed v peers' hk hv hpeers
    · cases h
  | _ =>
    obtain ⟨hk, ⟨⟩⟩ := ite_none_right_eq_some.mp h
    refine .along hk _ k.started rfl nofun ?_ fun _ => rfl
    split <;> rfl

end Conn

/-! ### No matter what is stopped when -/

/-- How often the reactor may still be told that the peer is there. -/
def AddPc.budget (r : R) : AddPc R → ℕ
  | .adding rest => rest.count r
  | pc => if pc.early then 1 else 0

/-- How often the reactor may still be told that the peer is gone. -/
def StopPc.budget (r : R) : StopPc R → ℕ
  | .idle | .claimed _ | .reverting => 1
  | .removing rest => rest.count r
  | .stopped => 0

theorem AddPc.budget_le_of_not_inside (r : R) {p q : AddPc R} (hp : p.inside = false)
    (hq : q.inside = false) (hearly : q.early = true → p.early = true) :
    q.budget r ≤ p.budget r := by
  have hbudget : ∀ x : AddPc R, x.inside = false → x.budget r = if x.early then 1 else 0 := by
    intro x hx
    cases x with
    | adding rest => cases hx
    | _ => rfl
  rw [hbudget p hp, hbudget q hq]
  by_cases h : q.early = true
  · rw [if_pos h, if_pos (hearly h)]
  · rw [if_neg h]
    exact Nat.zero_le _

namespace Conn

variable {peers : PeerSet ID} {c : ℕ} {k : Conn ID R} {e : ConnEvent R}
  {o : Conn ID R × PeerSet ID × List (Note R)}

namespace Moves

omit [DecidableEq R] in
/-- What is seen of a step is seen of this connection. -/
theorem conn_eq (h : Moves peers c k e o) : o.2.2.length ≤ 1 ∧ ∀ n ∈ o.2.2, n.conn = c := by
  cases h <;> simp [Note.conn]

theorem addPeer_budget (h : Moves peers c k e o) (r : R) :
    o.2.2.count (.addPeer r c) + o.1.pc.budget r ≤ k.pc.budget r := by
  cases h with
  | walk pc started hk hleft hpc hearly =>
    rw [count_nil, Nat.zero_add]
    exact AddPc.budget_le_of_not_inside r hk hpc hearly
  | reject hk => simp [AddPc.budget, AddPc.early, hk]
  | enter order hk horder =>
    simpa [AddPc.budget, AddPc.early, hk] using nodup_iff_count_le_one.mp horder r
  | call r' rest hk =>
    rw [hk]
    show count _ [_] + rest.count r ≤ (r' :: rest).count r
    rw [count_cons, count_cons, count_nil]
    simp only [beq_iff_eq, Note.addPeer.injEq, and_true]
    omega
  | finish hk => simp [AddPc.budget, AddPc.early, hk]
  | _ => simp

theorem removePeer_budget (h : Moves peers c k e o) (r : R) :
    o.2.2.count (.removePeer r c) + o.1.stopping.budget r ≤ k.stopping.budget r := by
  cases h with
  | remove order hk horder =>
    simpa [StopPc.budget, hk] using nodup_iff_count_le_one.mp horder r
  | tell r' rest hk =>
    rw [hk]
    show count _ [_] + rest.count r ≤ (r' :: rest).count r
    rw [count_cons, count_cons, count_nil]
    simp only [beq_iff_eq, Note.removePeer.injEq, and_true]
    omega
  | walk => simp
  | enter => simp
  | call => simp
  | _ => simp_all [StopPc.budget]

omit [DecidableEq R] in
theorem consistent (h : Moves peers c k e o) (hc : peers.Consistent snd) :
    o.2.1.Consistent snd := by
  cases h with
  | enter order hk horder hnone => exact hc.add hnone
  | removed v peers' hk hv hpeers =>
    obtain ⟨t, ht, hct, -⟩ := hc.remove hv
    rw [hpeers] at ht
    cases ht
    exact hct
  | _ => exact hc

end Moves

end Conn

namespace Switch

variable {reactors : Finset R} {s s' : Switch ID R} {ev : Event ID R}

theorem next_cases (hc : s.peers.Consistent snd) (h : s.next reactors ev = some s') :
    (∃ c id, ev = .connect c id ∧ s.conns c = none ∧
      s' = { s with conns := update s.conns c (some { id }) }) ∨
    (∃ c e k o, ev = .on c e ∧ s.conns c = some k ∧ Conn.Moves s.peers c k e o ∧
      s' = { s with conns := update s.conns c (some o.1), peers := o.2.1,
                    trace := s.trace ++ o.2.2 }) ∨
    (ev = .stop ∧ s' = { s with running := false }) := by
  cases ev with
  | connect c id =>
    simp only [next] at h
    split at h
    · rename_i hnone
      exact .inl ⟨c, id, rfl, hnone, (some.inj h).symm⟩
    · cases h
  | on c e =>
    simp only [next] at h
    split at h
    · cases h
    · rename_i k hk
      obtain ⟨o, ho, rfl⟩ := map_eq_some_iff.mp h
      exact .inr (.inl ⟨c, e, k, o, rfl, hk, Conn.moves_of_next hc ho, rfl⟩)
  | stop => exact .inr (.inr ⟨rfl, (some.inj h).symm⟩)

/-- The set is consistent, and no reactor has been told more often than it may be. -/
structure Budgeted (s : Switch ID R) : Prop where
  consistent : s.peers.Consistent snd
  addPeer : ∀ c r, s.trace.count (.addPeer r c) + ((s.conns c).elim 1 fun k => k.pc.budget r) ≤ 1
  removePeer : ∀ c r,
    s.trace.count (.removePeer r c) + ((s.conns c).elim 1 fun k => k.stopping.budget r) ≤ 1

omit [DecidableEq ID] in
theorem budgeted_init : Budgeted ({} : Switch ID R) :=
  ⟨.empty, fun _ _ => le_rfl, fun _ _ => le_rfl⟩

omit [DecidableEq ID] in
/-- The budget of a connection pays for what is seen of its step. -/
theorem budget_step {trace notes : List (Note R)} {conns : ℕ → Option (Conn ID R)}
    {budget : Conn ID R → ℕ} {n : Note R} {c : ℕ} {k k' : Conn ID R} (hk : conns c = some k)
    (hnotes : ∀ m ∈ notes, m.conn = c) (hpays : n.conn = c → notes.count n + budget k' ≤ budget k)
    (h : trace.count n + (conns n.conn).elim 1 budget ≤ 1) :
    (trace ++ notes).count n + (update conns c (some k') n.conn).elim 1 budget ≤ 1 := by
  rw [count_append]
  by_cases hn : n.conn = c
  · have := hpays hn
    rw [hn, update_self]
    rw [hn, hk] at h
    simp only [elim_some] at h ⊢
    omega
  · rw [count_eq_zero.mpr fun hm => hn (hnotes n hm), update_of_ne hn]
    exact h

/-- **Whatever is stopped when**, a step stays within the budgets. -/
theorem Budgeted.step (h : Budgeted s) (hn : s.next reactors ev = some s') : Budgeted s' := by
  obtain ⟨c, id, rfl, hnone, rfl⟩ | ⟨c, e, k, o, rfl, hk, hmoves, rfl⟩ | ⟨rfl, rfl⟩ :=
    next_cases h.consistent hn
  · have hsame : ∀ (budget : Conn ID R → ℕ) c', budget { id } = 1 →
        ((update s.conns c (some { id })) c').elim 1 budget =
          (s.conns c').elim 1 budget := by
      intro budget c' hbudget
      by_cases hc : c' = c
      · rw [hc, update_self, hnone]
        exact hbudget
      · rw [update_of_ne hc]
    refine ⟨h.consistent, fun c' r => ?_, fun c' r => ?_⟩
    · show s.trace.count _ + _ ≤ 1
      rw [hsame _ c' rfl]
      exact h.addPeer c' r
    · show s.trace.count _ + _ ≤ 1
      rw [hsame _ c' rfl]
      exact h.removePeer c' r
  · refine ⟨hmoves.consistent h.consistent, fun c' r => ?_, fun c' r => ?_⟩
    · refine budget_step (n := .addPeer r c') hk hmoves.conn_eq.2 ?_ (h.addPeer c' r)
      rintro rfl
      exact hmoves.addPeer_budget r
    · refine budget_step (n := .removePeer r c') hk hmoves.conn_eq.2 ?_ (h.removePeer c' r)
      rintro rfl
      exact hmoves.removePeer_budget r
  · exact ⟨h.consistent, h.addPeer, h.removePeer⟩

/-! ### Peers stopped once they are added -/

/-- A peer is reported or stopped only after `addPeer` has returned without an error. -/
def StoppedOnceAdded (s : Switch ID R) : Event ID R → Prop
  | .on c e => e.stops = true → (s.conns c).map Conn.pc = some .added
  | _ => True

instance (s : Switch ID R) (ev : Event ID R) : Decidable (s.StoppedOnceAdded ev) :=
  match ev with
  | .on _ _ => inferInstanceAs (Decidable (_ → _))
  | .connect _ _ | .stop => .isTrue trivial

end Switch

namespace Conn

/-- What a connection that is not stopped too early looks like. -/
structure Settled (k : Conn ID R) : Prop where
  /-- Nobody removes it before it is added. -/
  waits : k.pc ≠ .added → k.reporters = 0 ∧ k.stopping.leaving = false
  /-- Only the caller of `addPeer` stops it without removing it. -/
  rejected : k.stopping = .claimed false → k.pc = .left

namespace Settled

variable {peers : PeerSet ID} {c : ℕ} {k : Conn ID R} {e : ConnEvent R}
  {o : Conn ID R × PeerSet ID × List (Note R)}

omit [DecidableEq ID] in
theorem added_of_leaving (h : k.Settled) (hl : k.stopping.leaving = true) : k.pc = .added := by
  by_contra hpc
  rw [(h.waits hpc).2] at hl
  cases hl

omit [DecidableEq ID] in
theorem added_of_reporters (h : k.Settled) {n : ℕ} (hn : k.reporters = n + 1) : k.pc = .added := by
  by_contra hpc
  rw [(h.waits hpc).1] at hn
  cases hn

theorem moves (h : k.Settled) (hok : e.stops = true → k.pc = .added) (hm : Moves peers c k e o) :
    o.1.Settled := by
  cases hm with
  | walk pc started hk hleft hpc hearly =>
    have hne : k.pc ≠ .added := fun heq => by simp [heq, AddPc.inside] at hk
    exact ⟨fun _ => h.waits hne, fun hf => absurd (h.rejected hf) hleft⟩
  | reject hk hidle => exact ⟨fun _ => ⟨(h.waits (by simp [hk])).1, rfl⟩, fun _ => rfl⟩
  | enter order hk =>
    exact ⟨fun _ => h.waits (by simp [hk]), fun hf => by simpa [hk] using h.rejected hf⟩
  | call r rest hk =>
    exact ⟨fun _ => h.waits (by simp [hk]), fun hf => by simpa [hk] using h.rejected hf⟩
  | finish hk =>
    exact ⟨fun hne => absurd rfl hne, fun hf => by simpa [hk] using h.rejected hf⟩
  | report he =>
    have hk := hok (by rw [he]; rfl)
    exact ⟨fun hne => absurd hk hne, h.rejected⟩
  | late n hn => exact ⟨fun hne => absurd (h.added_of_reporters hn) hne, h.rejected⟩
  | claimForError n hn hidle => exact ⟨fun hne => absurd (h.added_of_reporters hn) hne, nofun⟩
  | claim he hidle =>
    have hk := hok (by rw [he]; rfl)
    exact ⟨fun hne => absurd hk hne, nofun⟩
  | remove order hk =>
    exact ⟨fun hne => absurd (h.added_of_leaving (by rw [hk]; rfl)) hne, nofun⟩
  | tell r rest hk =>
    exact ⟨fun hne => absurd (h.added_of_leaving (by rw [hk]; rfl)) hne, nofun⟩
  | _ => exact ⟨fun hne => ⟨(h.waits hne).1, rfl⟩, nofun⟩

end Settled

/-! What a step does, if the set has the connection as long as it should. -/

section Held

variable {peers : PeerSet ID} {c : ℕ} {k : Conn ID R} {e : ConnEvent R}
  {o : Conn ID R × PeerSet ID × List (Note R)}

/-- The set has the connection, if it has got it and not been told to remove it. -/
def Held (peers : PeerSet ID) (c : ℕ) (k : Conn ID R) : Prop :=
  k.pc.inside = true → k.stopping ≠ .stopped → peers.get k.id = some (c, k.id)

omit [DecidableEq ID] in
theorem Held.of_removing (h : Held peers c k) (hs : k.Settled) {rest : List R}
    (hk : k.stopping = .removing rest) : peers.get k.id = some (c, k.id) := by
  have hadded := hs.added_of_leaving (by rw [hk]; rfl)
  exact h (by rw [hadded]; rfl) (by simp [hk])

omit [DecidableEq R] in
theorem Held.moves (h : Held peers c k) (hm : Moves peers c k e o) :
    Held o.2.1 c o.1 := by
  intro hin hstop
  cases hm with
  | walk pc started hk hleft hpc hearly => exact absurd (hpc.symm.trans hin) Bool.false_ne_true
  | reject => cases hin
  | enter order =>
    show (peers.add snd (c, k.id)).get k.id = _
    rw [IndexedTable.get_add, if_pos rfl]
  | call r rest hk => exact h (by rw [hk]; rfl) hstop
  | finish hk => exact h (by rw [hk]; rfl) hstop
  | report => exact h hin hstop
  | late => exact h hin hstop
  | claimForError n hn hidle => exact h hin (by simp [hidle])
  | claim he hidle => exact h hin (by simp [hidle])
  | revert removes hk => exact h hin (by simp [hk])
  | reverted hk => exact h hin (by simp [hk])
  | remove order hk => exact h hin (by simp [hk])
  | tell r rest hk => exact h hin (by simp [hk])
  | _ => exact absurd rfl hstop

/-- Another connection stays. -/
theorem Held.other (h : Held peers c k) (hs : k.Settled) (hc : peers.Consistent snd)
    (hm : Moves peers c k e o) {d : ℕ} {id : ID} (hd : peers.get id = some (d, id)) (hne : d ≠ c) :
    o.2.1.get id = some (d, id) := by
  cases hm with
  | enter order hk horder hnone =>
    show (peers.add snd (c, k.id)).get id = _
    have hid : id ≠ k.id := by
      rintro rfl
      rw [hd] at hnone
      cases hnone
    rw [IndexedTable.get_add, if_neg hid, hd]
  | removed v peers' hk hv hpeers =>
    obtain ⟨t, ht, -, hget⟩ := hc.remove hv
    rw [hpeers] at ht
    cases ht
    have hid : id ≠ k.id := by
      rintro rfl
      rw [h.of_removing hs hk] at hd
      exact hne (Prod.mk.inj (some.inj hd)).1.symm
    show peers'.get id = _
    rw [hget, if_neg hid, hd]
  | _ => exact hd

/-- What is removed is the connection itself. -/
theorem Held.removed_eq (h : Held peers c k) (hs : k.Settled) (hm : Moves peers c k e o) {v b : ℕ}
    (hmem : .removed v b ∈ o.2.2) : v = b := by
  cases hm with
  | removed v' peers' hk hv =>
    rw [h.of_removing hs hk] at hv
    cases hv
    obtain ⟨rfl, rfl⟩ := Note.removed.inj (mem_singleton.mp hmem)
    rfl
  | _ => simp at hmem

omit [DecidableEq R] in
theorem Moves.entered (hm : Moves peers c k e o) (hin : o.1.pc.inside = true) :
    k.pc.inside = true ∨ .entered c ∈ o.2.2 := by
  cases hm with
  | walk pc started hk hleft hpc => exact absurd (hpc.symm.trans hin) Bool.false_ne_true
  | reject => cases hin
  | enter => exact .inr (mem_singleton.mpr rfl)
  | call r rest hk => exact .inl (by rw [hk]; rfl)
  | finish hk => exact .inl (by rw [hk]; rfl)
  | _ => exact .inl hin

omit [DecidableEq R] in
theorem Moves.added (hm : Moves peers c k e o) (hk : k.pc = .added) : o.1.pc = .added := by
  cases hm with
  | walk pc started hk' => simp [hk, AddPc.inside] at hk'
  | reject hk' => simp [hk] at hk'
  | enter order hk' => simp [hk] at hk'
  | call r rest hk' => simp [hk] at hk'
  | finish => rfl
  | _ => exact hk

theorem Settled.added_of_removePeer (hs : k.Settled) (hm : Moves peers c k e o) {r : R} {b : ℕ}
    (hmem : .removePeer r b ∈ o.2.2) : k.pc = .added := by
  cases hm with
  | tell r' rest hk => exact hs.added_of_leaving (by rw [hk]; rfl)
  | _ => simp at hmem

omit [DecidableEq R] in
theorem Moves.not_added_of_addPeer (hm : Moves peers c k e o) {r : R} {b : ℕ}
    (hmem : .addPeer r b ∈ o.2.2) : k.pc ≠ .added := by
  cases hm with
  | call r' rest hk => simp [hk]
  | _ => simp at hmem

end Held

end Conn

namespace Switch

variable {reactors : Finset R} {s s' : Switch ID R} {ev : Event ID R}

/-- The set has every connection it has got and not been told to remove, and each left it for its
own sake. -/
structure Orderly (s : Switch ID R) : Prop where
  settled : ∀ c k, s.conns c = some k → k.Settled
  held : ∀ c k, s.conns c = some k → Conn.Held s.peers c k
  entered : ∀ c k, s.conns c = some k → k.pc.inside = true → .entered c ∈ s.trace
  removed : ∀ v c, .removed v c ∈ s.trace → v = c
  told : ∀ r c, .removePeer r c ∈ s.trace → (s.conns c).map Conn.pc = some .added
  ordered : ∀ r c, NeverAfter (· = .removePeer r c) (· = .addPeer r c) s.trace

omit [DecidableEq ID] [DecidableEq R] in
theorem orderly_init : Orderly ({} : Switch ID R) where
  settled := nofun
  held := nofun
  entered := nofun
  removed := nofun
  told := nofun
  ordered _ _ := .nil

omit [DecidableEq ID] [DecidableEq R] in
theorem Orderly.connect (h : Orderly s) {c : ℕ} {id : ID} (hnone : s.conns c = none) :
    Orderly { s with conns := update s.conns c (some { id }) } := by
  refine ⟨fun c' k hk => ?_, fun c' k hk hin => ?_, fun c' k hk hin => ?_, h.removed, ?_, h.ordered⟩
  · obtain ⟨-, rfl⟩ | ⟨-, hk'⟩ := update_eq_some hk
    · exact ⟨fun _ => ⟨rfl, rfl⟩, nofun⟩
    · exact h.settled c' k hk'
  · obtain ⟨-, rfl⟩ | ⟨-, hk'⟩ := update_eq_some hk
    · cases hin
    · exact h.held c' k hk' hin
  · obtain ⟨-, rfl⟩ | ⟨-, hk'⟩ := update_eq_some hk
    · cases hin
    · exact h.entered c' k hk' hin
  · intro r c' hmem
    obtain ⟨k, hk, hadded⟩ := map_eq_some_iff.mp (h.told r c' hmem)
    exact map_eq_some_iff.mpr ⟨k, update_of_none hnone hk _, hadded⟩

theorem Orderly.on (h : Orderly s) (hc : s.peers.Consistent snd) {c : ℕ} {k : Conn ID R}
    {e : ConnEvent R} {o : Conn ID R × PeerSet ID × List (Note R)} (hk : s.conns c = some k)
    (hok : e.stops = true → k.pc = .added) (hm : Conn.Moves s.peers c k e o) :
    Orderly { s with conns := update s.conns c (some o.1), peers := o.2.1,
                     trace := s.trace ++ o.2.2 } := by
  have hs := h.settled c k hk
  have hheld := h.held c k hk
  -- an added connection stays so, this one or another
  have hadded : ∀ c', (s.conns c').map Conn.pc = some .added →
      (update s.conns c (some o.1) c').map Conn.pc = some .added := by
    intro c' hc'
    by_cases hcc : c' = c
    · subst hcc
      rw [hk] at hc'
      rw [update_self, map_some, hm.added (some.inj hc')]
    · rwa [update_of_ne hcc]
  refine ⟨fun c' k' hk' => ?_, fun c' k' hk' => ?_, fun c' k' hk' hin => ?_, fun v b hmem => ?_,
    fun r c' hmem => ?_, fun r c' => ?_⟩
  · obtain ⟨rfl, rfl⟩ | ⟨-, hk''⟩ := update_eq_some hk'
    · exact hs.moves hok hm
    · exact h.settled c' k' hk''
  · obtain ⟨rfl, rfl⟩ | ⟨hne, hk''⟩ := update_eq_some hk'
    · exact hheld.moves hm
    · exact fun hin hstop => hheld.other hs hc hm (h.held c' k' hk'' hin hstop) hne
  · show _ ∈ s.trace ++ o.2.2
    obtain ⟨rfl, rfl⟩ | ⟨-, hk''⟩ := update_eq_some hk'
    · rcases hm.entered hin with hin' | hmem
      · exact mem_append_left _ (h.entered c' k hk hin')
      · exact mem_append_right _ hmem
    · exact mem_append_left _ (h.entered c' k' hk'' hin)
  · rcases mem_append.mp hmem with hmem | hmem
    · exact h.removed v b hmem
    · exact hheld.removed_eq hs hm hmem
  · rcases mem_append.mp hmem with hold | hnew
    · exact hadded c' (h.told r c' hold)
    · obtain rfl : c' = c := hm.conn_eq.2 _ hnew
      exact hadded c' (by rw [hk, map_some, hs.added_of_removePeer hm hnew])
  · refine (h.ordered r c').append hm.conn_eq.1 ?_
    rintro ⟨_, hmem, rfl⟩ _ hmem' rfl
    obtain rfl : c' = c := hm.conn_eq.2 _ hmem'
    have hpc := h.told r c' hmem
    rw [hk] at hpc
    exact hm.not_added_of_addPeer hmem' (some.inj hpc)

theorem Orderly.step (h : Orderly s) (hc : s.peers.Consistent snd)
    (hok : s.StoppedOnceAdded ev) (hn : s.next reactors ev = some s') : Orderly s' := by
  obtain ⟨c, id, rfl, hnone, rfl⟩ | ⟨c, e, k, o, rfl, hk, hm, rfl⟩ | ⟨rfl, rfl⟩ := next_cases hc hn
  · exact h.connect hnone
  · refine h.on hc hk (fun he => ?_) hm
    have hadded := hok he
    rw [hk] at hadded
    exact some.inj hadded
  · exact ⟨h.settled, h.held, h.entered, h.removed, h.told, h.ordered⟩

/-! ### Connections with the same ID -/

/-- Connections with the same ID do not disturb each other. -/
structure Undisturbed (s : Switch ID R) : Prop where
  /-- At most one connection of an ID is in the set. -/
  ids_nodup : (s.peers.list.map snd).Nodup
  /-- Stopping a connection removes no other one from the set. -/
  removed_eq : ∀ v c, .removed v c ∈ s.trace → v = c
  /-- No reactor is told that a connection is gone that was never in the set. -/
  entered_of_removePeer : ∀ r c, .removePeer r c ∈ s.trace → .entered c ∈ s.trace
  addPeer_once : ∀ r c, s.trace.count (.addPeer r c) ≤ 1
  removePeer_once : ∀ r c, s.trace.count (.removePeer r c) ≤ 1
  addPeer_first : ∀ r c, NeverAfter (· = .removePeer r c) (· = .addPeer r c) s.trace

omit [DecidableEq ID] in
theorem undisturbed_of_orderly (hb : Budgeted s) (h : Orderly s) : Undisturbed s where
  ids_nodup := hb.consistent.keys_nodup
  removed_eq := h.removed
  entered_of_removePeer := by
    intro r c hmem
    obtain ⟨k, hk, hpc⟩ := map_eq_some_iff.mp (h.told r c hmem)
    exact h.entered c k hk (by rw [hpc]; rfl)
  addPeer_once r c := le_trans (Nat.le_add_right _ _) (hb.addPeer c r)
  removePeer_once r c := le_trans (Nat.le_add_right _ _) (hb.removePeer c r)
  addPeer_first := h.ordered

/-- **Connections with the same ID leave each other alone**, in every interleaving in which a peer
is reported or stopped only after `addPeer` has returned. -/
theorem undisturbed_of_steps (h : Steps (next reactors) StoppedOnceAdded {} s) : Undisturbed s := by
  have hb : ∀ t : Switch ID R, Steps (next reactors) StoppedOnceAdded {} t → Budgeted t := by
    intro t ht
    exact ht.invariant budgeted_init fun _ _ _ hi _ hn => hi.step hn
  refine undisturbed_of_orderly (hb s h) (h.invariant_of hb orderly_init ?_)
  intro t a u hbt hot hok hn
  exact hot.step hbt.consistent hok hn

/-- A connection up to where it runs, and on into the set and past a reactor. -/
private def starts (c : ℕ) : List (Event ℕ ℕ) :=
  [.on c .checkRunning, .on c .start, .on c (.onStart true)]

private def isAdded (c : ℕ) : List (Event ℕ ℕ) := [.on c (.add [0]), .on c .addPeer, .on c .addPeer]

/-- The routines of the connection fail, and `stopAndRemovePeer` runs to its end. -/
private def fails (c : ℕ) : List (Event ℕ ℕ) :=
  [.on c .report, .on c .stopForError, .on c (.onStop [0]), .on c .removePeer, .on c .removePeer]

/-- Two connections to node 7 pass the filter. -/
private def bothPass : List (Event ℕ ℕ) :=
  [.connect 0 7, .connect 1 7, .on 0 (.filterPeer true), .on 1 (.filterPeer true)]

/-- The second of two connections is rejected and stopped; the first then fails on its own. -/
theorem undisturbed_of_steps_two : ∃ s : Switch ℕ ℕ,
    Steps (next {0}) StoppedOnceAdded {} s ∧
      s.trace = [.entered 0, .addPeer 0 0, .removePeer 0 0, .removed 0 0] ∧ Undisturbed s := by
  let evs : List (Event ℕ ℕ) := bothPass ++ starts 0 ++ starts 1 ++ isAdded 0 ++
    [.on 1 (.add [0]), .on 1 .cleanup, .on 1 .isRunning, .on 1 .stopRejected] ++ [.on 1 (.onStop [0])] ++
    fails 0
  have hsteps : Steps (next {0}) StoppedOnceAdded {}
      ((execWhere (next {0}) StoppedOnceAdded {} evs).getD {}) :=
    steps_execWhere (by decide +kernel)
  exact ⟨_, hsteps, by decide +kernel, undisturbed_of_steps hsteps⟩

/-- The second of two connections is rejected as a duplicate, and its routines report that it is
closed before its caller stops it: the first one goes, and the reactor is told of a peer that never
was in the set. And a connection that fails before the reactor is told of it: the reactor is told
that it is there after it is told that it is gone. -/
theorem disturbed :
    (∃ s : Switch ℕ ℕ, Reachable (next {0}) {} s ∧
      s.trace = [.entered 0, .addPeer 0 0, .removePeer 0 1, .removed 0 1] ∧ s.peers.list = []) ∧
    ∃ s : Switch ℕ ℕ, Reachable (next {0}) {} s ∧
      s.trace = [.entered 0, .removePeer 0 0, .removed 0 0, .addPeer 0 0] := by
  constructor
  · have h : (exec (next {0}) {} (bothPass ++ starts 0 ++ starts 1 ++ isAdded 0 ++
        [.on 1 (.add [0]), .on 1 .cleanup] ++ fails 1)).map (fun s => (s.trace, s.peers.list)) =
        some ([.entered 0, .addPeer 0 0, .removePeer 0 1, .removed 0 1], []) := by
      decide +kernel
    obtain ⟨s, hs, hval⟩ := map_eq_some_iff.mp h
    simp only [Prod.mk.injEq] at hval
    exact ⟨s, steps_of_exec hs, hval⟩
  · have h : (exec (next {0}) {} (bothPass ++ starts 0 ++ [.on 0 (.add [0])] ++ fails 0 ++
        [.on 0 .addPeer])).map trace =
        some [.entered 0, .removePeer 0 0, .removed 0 0, .addPeer 0 0] := by
      decide +kernel
    obtain ⟨s, hs, hval⟩ := map_eq_some_iff.mp h
    exact ⟨s, steps_of_exec hs, hval⟩

/-- **In every interleaving** no ID is in the set twice, and no reactor is told twice that a peer is
there, or twice that it is gone. -/
theorem once_of_reachable (h : Reachable (next reactors) {} s) :
    (s.peers.list.map snd).Nodup ∧ ∀ r c,
      s.trace.count (.addPeer r c) ≤ 1 ∧ s.trace.count (.removePeer r c) ≤ 1 := by
  have hb : Budgeted s := Steps.invariant h budgeted_init fun _ _ _ hi _ hn => hi.step hn
  exact ⟨hb.consistent.keys_nodup, fun r c =>
    ⟨Nat.le_of_add_right_le (hb.addPeer c r), Nat.le_of_add_right_le (hb.removePeer c r)⟩⟩

theorem once_of_reachable_fails : ∃ s : Switch ℕ ℕ,
    Reachable (next {0}) {} s ∧ s.trace.count (.removePeer 0 0) ≤ 1 := by
  have h : (exec (next {0}) {} (bothPass ++ starts 0 ++ isAdded 0 ++ fails 0)).isSome := by
    decide +kernel
  obtain ⟨s, hs⟩ := isSome_iff_exists.mp h
  exact ⟨s, steps_of_exec hs, ((once_of_reachable (steps_of_exec hs)).2 0 0).2⟩

end Switch

end CometBFT.P2P
