import CometBFT.Lib.Runs
import CometBFT.Lib.Pool

/-!
# Machines of goroutines

A program with goroutines is a step function of one goroutine: from the shared state, and with a
choice made by the world, it says what the goroutine does next, which goroutines it launches and
what is observed. Goroutines also appear by calls from outside, and the world may change the part of
the shared state that it owns. `Machine.next` interleaves all of this, so that `Steps M.next ok` are
the runs under any scheduler.

Mutual exclusion is bookkeeping: a `Ledger` is a quantity that the shared state records and the
goroutines hold, and a `Lock` is a ledger of which there is at most one unit.

## Main definitions

* `Machine`, `Config`, `Machine.next` — programs and their interleaving semantics
* `Ledger`, `Lock` — what goroutines hold of the shared state

## Main results

* `Machine.invariant`, `Machine.threads_invariant` — what every step keeps is true in every state
  of a run, of the state as a whole and of each goroutine
* `Ledger.balanced` — the records agree with the goroutines
* `Lock.atMostOne`, `Lock.invariant` — mutual exclusion, and what a lock protects
-/

namespace CometBFT.Goroutines

open Pool (total)

variable {σ τ ε χ κ ω : Type*}

/-- What a step of a goroutine leaves behind. -/
structure Effect (σ τ ε : Type*) where
  shared : σ
  thread : τ
  launched : List τ := []
  events : List ε := []

/-- A program: one step of a goroutine in state `τ`, the goroutines that calls from outside start,
what the world does by itself, and whether the process still runs. -/
structure Machine (σ τ ε χ κ ω : Type*) where
  step : σ → χ → τ → Option (Effect σ τ ε)
  call : κ → τ
  world : σ → ω → Option σ
  live : σ → Bool := fun _ => true
  /-- the first state with what the world owns taken from the second -/
  owned : σ → σ → σ := fun _ s => s
  owned_world : ∀ {s w s'}, world s w = some s' → s' = owned s s' := by intros; rfl

/-- The shared state, the goroutines, and what has been observed: each event with the goroutine
that it belongs to. -/
structure Config (σ τ ε : Type*) where
  shared : σ
  threads : List τ := []
  trace : List (ℕ × ε) := []

inductive Action (χ κ ω : Type*) where
  /-- a call from outside starts a goroutine -/
  | call (c : κ)
  /-- goroutine `i` takes a step -/
  | run (i : ℕ) (ch : χ)
  | world (w : ω)
  deriving DecidableEq, Repr

/-- Goroutine `i` took a step with effect `o`. -/
def Config.move (st : Config σ τ ε) (i : ℕ) (o : Effect σ τ ε) : Config σ τ ε where
  shared := o.shared
  threads := st.threads.set i o.thread ++ o.launched
  trace := st.trace ++ o.events.map (i, ·)

@[simp] theorem Config.move_shared (st : Config σ τ ε) (i : ℕ) (o : Effect σ τ ε) :
    (st.move i o).shared = o.shared := rfl

/-- One step of the machine. -/
def Machine.next (M : Machine σ τ ε χ κ ω) (st : Config σ τ ε) (a : Action χ κ ω) :
    Option (Config σ τ ε) :=
  if M.live st.shared then
    match a with
    | .call c => some { st with threads := st.threads ++ [M.call c] }
    | .run i ch => (st.threads[i]?.bind (M.step st.shared ch)).map (st.move i)
    | .world w => (M.world st.shared w).map fun s => { st with shared := s }
  else none

variable {M : Machine σ τ ε χ κ ω} {ok : Config σ τ ε → Action χ κ ω → Prop}
  {st st' : Config σ τ ε}

/-! ### Inversion -/

/-- What one step of the machine can be. -/
inductive Moved (M : Machine σ τ ε χ κ ω) (st : Config σ τ ε) :
    Action χ κ ω → Config σ τ ε → Prop where
  | call (c : κ) : Moved M st (.call c) { st with threads := st.threads ++ [M.call c] }
  | run {i : ℕ} {ch : χ} {t : τ} {o : Effect σ τ ε} (hi : st.threads[i]? = some t)
      (ho : M.step st.shared ch t = some o) : Moved M st (.run i ch) (st.move i o)
  | world {w : ω} {s : σ} (hs : M.world st.shared w = some s) :
      Moved M st (.world w) { st with shared := M.owned st.shared s }

theorem Machine.next_moved {a : Action χ κ ω} (h : M.next st a = some st') :
    M.live st.shared = true ∧ Moved M st a st' := by
  unfold Machine.next at h
  split_ifs at h with hlive
  refine ⟨hlive, ?_⟩
  cases a with
  | call c =>
    obtain rfl := Option.some.inj h
    exact .call c
  | run i ch =>
    obtain ⟨o, ho, rfl⟩ := Option.map_eq_some_iff.mp h
    obtain ⟨t, ht, ho⟩ := Option.bind_eq_some_iff.mp ho
    exact .run ht ho
  | world w =>
    obtain ⟨s, hs, rfl⟩ := Option.map_eq_some_iff.mp h
    rw [M.owned_world hs]
    exact .world hs

/-! ### Invariants -/

/-- The machine starts with nothing running. -/
def start (s : σ) : Config σ τ ε := { shared := s }

/-- The states of the runs from shared state `s` whose steps all meet `ok`. -/
abbrev Machine.Runs (M : Machine σ τ ε χ κ ω) (ok : Config σ τ ε → Action χ κ ω → Prop) (s : σ)
    (st : Config σ τ ε) : Prop := Steps M.next ok (start s) st

variable {s : σ} {i : ℕ} {ch : χ} {t : τ} {o : Effect σ τ ε}

/-- In state `st` of a run goroutine `i`, which is in state `t`, takes a step with effect `o`. -/
structure Machine.Takes (M : Machine σ τ ε χ κ ω) (ok : Config σ τ ε → Action χ κ ω → Prop) (s : σ)
    (st : Config σ τ ε) (i : ℕ) (ch : χ) (t : τ) (o : Effect σ τ ε) : Prop where
  runs : M.Runs ok s st
  live : M.live st.shared = true
  allowed : ok st (.run i ch)
  thread : st.threads[i]? = some t
  step : M.step st.shared ch t = some o

theorem Machine.Takes.next (h : M.Takes ok s st i ch t o) :
    M.next st (.run i ch) = some (st.move i o) := by
  simp [Machine.next, h.live, h.thread, h.step]

theorem Machine.Takes.runs' (h : M.Takes ok s st i ch t o) : M.Runs ok s (st.move i o) :=
  h.runs.tail h.allowed h.next

/-- **The invariant rule**, with the three kinds of steps apart. -/
@[elab_as_elim]
theorem Machine.invariant {I : Config σ τ ε → Prop} (h0 : I (start s))
    (hcall : ∀ st c, M.Runs ok s st → I st → I { st with threads := st.threads ++ [M.call c] })
    (hworld : ∀ st w s', M.Runs ok s st → I st → M.world st.shared w = some s' →
      I { st with shared := M.owned st.shared s' })
    (hrun : ∀ st i ch t o, M.Takes ok s st i ch t o → I st → I (st.move i o))
    (hr : M.Runs ok s st) : I st := by
  refine Steps.invariant_of (J := M.Runs ok s) hr (fun _ h => h) h0 fun st a st' hr ih hok hn => ?_
  obtain ⟨hlive, hm⟩ := Machine.next_moved hn
  cases hm with
  | call c => exact hcall st c hr ih
  | run hi ho => exact hrun st _ _ _ _ ⟨hr, hlive, hok, hi, ho⟩ ih
  | world hs => exact hworld st _ _ hr ih hs

/-- **The invariant rule for goroutines.** `Q st i t` is true of every goroutine in every state of a
run, provided that it is true of a new one, survives what others do, and is kept by the goroutine's
own steps. -/
@[elab_as_elim]
theorem Machine.threads_invariant {Q : Config σ τ ε → ℕ → τ → Prop}
    (hcall : ∀ st c, M.Runs ok s st →
      Q { st with threads := st.threads ++ [M.call c] } st.threads.length (M.call c))
    (hcall' : ∀ st c i t, M.Runs ok s st → Q st i t →
      Q { st with threads := st.threads ++ [M.call c] } i t)
    (hworld : ∀ st w s' i t, M.Runs ok s st → Q st i t → M.world st.shared w = some s' →
      Q { st with shared := M.owned st.shared s' } i t)
    (hself : ∀ st i ch t o, M.Takes ok s st i ch t o →
      (∀ j u, st.threads[j]? = some u → Q st j u) → Q (st.move i o) i o.thread)
    (hother : ∀ st i ch t o j u, M.Takes ok s st i ch t o → j ≠ i → st.threads[j]? = some u →
      Q st j u → Q (st.move i o) j u)
    (hnew : ∀ st i ch t o j u, M.Takes ok s st i ch t o → st.threads.length ≤ j →
      u ∈ o.launched → Q (st.move i o) j u)
    (hr : M.Runs ok s st) (hi : st.threads[i]? = some t) : Q st i t := by
  suffices hall : ∀ i t, st.threads[i]? = some t → Q st i t from hall i t hi
  refine Machine.invariant ?_ ?_ ?_ ?_ hr
  · intro i t hi
    cases hi
  · intro st c hr ih i t hi
    dsimp only at hi
    rcases lt_or_ge i st.threads.length with hlt | hge
    · rw [List.getElem?_append_left hlt] at hi
      exact hcall' st c i t hr (ih i t hi)
    · obtain ⟨rfl, rfl⟩ := Pool.eq_of_getElem?_concat hge hi
      exact hcall st c hr
  · exact fun st w s' hr ih hs i t hi => hworld st w s' i t hr (ih i t hi) hs
  · intro st i ch t o h ih j u hj
    rcases Pool.getElem?_move h.thread hj with ⟨rfl, rfl⟩ | ⟨hji, hj'⟩ | ⟨hlen, hu⟩
    · exact hself st j ch t o h ih
    · exact hother st i ch t o j u h hji hj' (ih j u hj')
    · exact hnew st i ch t o j u h hlen hu

/-! ### Ledgers and locks -/

/-- A quantity that the shared state records and the goroutines hold: whatever a step adds to the
record, the goroutine that takes it holds more of. -/
structure Ledger (M : Machine σ τ ε χ κ ω) where
  books : σ → ℤ
  held : τ → ℤ
  held_call : ∀ c, held (M.call c) = 0
  books_world : ∀ s w s', M.world s w = some s' → books (M.owned s s') = books s
  kept : ∀ s ch t o, M.step s ch t = some o →
    books o.shared + held t = books s + held o.thread + total held o.launched

/-- **The records agree with the goroutines.** -/
theorem Ledger.balanced (L : Ledger M) (h0 : L.books s = 0) (hr : M.Runs ok s st) :
    L.books st.shared = total L.held st.threads := by
  refine Machine.invariant (by simpa [start] using h0) ?_ ?_ ?_ hr
  · intro st c _ ih
    simpa [L.held_call] using ih
  · intro st w s' _ ih hs
    dsimp only
    rw [L.books_world _ _ _ hs]
    exact ih
  · intro st i ch t o h ih
    have := Pool.balance_step L.held h.thread (L.kept _ _ _ _ h.step)
    rw [Config.move]
    dsimp only
    omega

/-- A ledger of which there is at most one unit, and which no goroutine is born with. -/
structure Lock (M : Machine σ τ ε χ κ ω) extends Ledger M where
  held_nonneg : ∀ t, 0 ≤ held t
  books_le_one : ∀ s, books s ≤ 1
  held_launched : ∀ s ch t o, M.step s ch t = some o → ∀ u ∈ o.launched, held u = 0

/-- The goroutine holds the lock. -/
def Lock.Holds (L : Lock M) (t : τ) : Prop := L.held t = 1

/-- **Mutual exclusion.** -/
theorem Lock.atMostOne (L : Lock M) (h0 : L.books s = 0) (hr : M.Runs ok s st) :
    Pool.AtMostOne L.Holds st.threads := by
  have hb := L.balanced h0 hr
  have := L.books_le_one st.shared
  exact Pool.atMostOne_of_total L.held_nonneg (by omega)

/-- **The lock rule.** What is true of the data a lock protects, `F` while nobody holds it and `H`
while somebody does, is true in every state of a run once it is true at first and kept by calls, by
the world, and by a step of a goroutine in each of the four ways in which it can stand to the
lock. -/
theorem Lock.invariant (L : Lock M) (h0 : L.books s = 0) {F : Config σ τ ε → Prop}
    {H : Config σ τ ε → ℕ → τ → Prop} (hF : F (start s))
    (hcall : ∀ st c, M.Runs ok s st →
      (F st → F { st with threads := st.threads ++ [M.call c] }) ∧
      ∀ i t, H st i t → H { st with threads := st.threads ++ [M.call c] } i t)
    (hworld : ∀ st w s', M.Runs ok s st → M.world st.shared w = some s' →
      (F st → F { st with shared := M.owned st.shared s' }) ∧
      ∀ i t, H st i t → H { st with shared := M.owned st.shared s' } i t)
    (hrun : ∀ st i ch t o, M.Takes ok s st i ch t o →
      (L.Holds t → L.Holds o.thread → H st i t → H (st.move i o) i o.thread) ∧
      (L.Holds t → ¬ L.Holds o.thread → H st i t → F (st.move i o)) ∧
      (¬ L.Holds t → L.Holds o.thread → F st → H (st.move i o) i o.thread) ∧
      (¬ L.Holds t → ¬ L.Holds o.thread → (F st → F (st.move i o)) ∧
        ∀ j u, st.threads[j]? = some u → L.Holds u → H st j u → H (st.move i o) j u))
    (hr : M.Runs ok s st) :
    Pool.Guarded L.Holds st.threads (F st) (H st) := by
  refine Machine.invariant ?_ ?_ ?_ ?_ hr
  · exact ⟨fun _ => hF, fun i t hi => by cases hi⟩
  · intro st c hr hg
    refine hg.mono (fun u hu => ?_) (hcall st c hr).1 fun j u _ => (hcall st c hr).2 j u
    rw [List.mem_singleton.mp hu, Lock.Holds, L.held_call]
    decide
  · intro st w s' hr hg hs
    obtain ⟨hf, hh⟩ := hworld st w s' hr hs
    have := hg.mono (List.forall_mem_nil _) hf fun j u _ => hh j u
    rwa [List.append_nil] at this
  · intro st i ch t o h hg
    obtain ⟨keep, give, take, other⟩ := hrun st i ch t o h
    refine hg.move h.thread (L.atMostOne h0 h.runs) (L.atMostOne h0 h.runs') (fun u hu => ?_) keep
      give take other
    rw [Lock.Holds, L.held_launched _ _ _ _ h.step u hu]
    decide

end CometBFT.Goroutines
