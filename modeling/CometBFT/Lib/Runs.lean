import Mathlib.Logic.Relation

/-!
# Runs of a step function

A system is a step function `next : σ → α → Option σ`: from state `s`, the action `a` is either
disabled (`none`) or leads to one state. Nondeterminism lives in the action, so a scheduler, an
environment and an adversary are all just lists of actions.

`Steps next ok s t` says that `t` is reached from `s` by steps that all meet the side condition
`ok`. Taking `ok := fun _ _ => True` gives plain reachability; a proper `ok` is how a statement
about *every run whose steps meet a condition* is written.

## Main results

* `Steps.invariant`, `Steps.invariant_of` — the induction rule for state invariants, plain and
  relative to an invariant that is already known
* `NeverAfter.append` — what can follow what in a trace, one step further
* `steps_of_exec` — an executed list of actions is a run
-/

namespace CometBFT

open Option

variable {σ α : Type*}

/-- `t` is reached from `s` by steps of `next` that all meet `ok`. -/
inductive Steps (next : σ → α → Option σ) (ok : σ → α → Prop) : σ → σ → Prop where
  | refl (s : σ) : Steps next ok s s
  | tail {s t u : σ} {a : α} (hs : Steps next ok s t) (hok : ok t a) (hn : next t a = some u) :
      Steps next ok s u

/-- Plain reachability: no condition on the steps. -/
def Reachable (next : σ → α → Option σ) (s t : σ) : Prop := Steps next (fun _ _ => True) s t

variable {next : σ → α → Option σ} {ok ok' : σ → α → Prop}

variable {s t : σ} {as : List α}

theorem Steps.mono (h : ∀ s a, ok s a → ok' s a) (hs : Steps next ok s t) :
    Steps next ok' s t := by
  induction hs with
  | refl => exact .refl _
  | tail _ hok hn ih => exact ih.tail (h _ _ hok) hn

theorem Steps.reachable (hs : Steps next ok s t) : Reachable next s t :=
  hs.mono fun _ _ _ => trivial

theorem Steps.trans {u : σ} (h₁ : Steps next ok s t) (h₂ : Steps next ok t u) :
    Steps next ok s u := by
  induction h₂ with
  | refl => exact h₁
  | tail _ hok hn ih => exact ih.tail hok hn

/-- **The invariant rule.** What holds initially and is kept by every step that meets the side
condition holds in every state reached. -/
@[elab_as_elim]
theorem Steps.invariant {I : σ → Prop} (hs : Steps next ok s t) (h0 : I s)
    (hstep : ∀ t a u, I t → ok t a → next t a = some u → I u) : I t := by
  induction hs with
  | refl => exact h0
  | tail _ hok hn ih => exact hstep _ _ _ ih hok hn

/-- The invariant rule relative to a property `J` that is known of every state of the run. -/
@[elab_as_elim]
theorem Steps.invariant_of {I J : σ → Prop} (hs : Steps next ok s t)
    (hJ : ∀ u, Steps next ok s u → J u) (h0 : I s)
    (hstep : ∀ t a u, J t → I t → ok t a → next t a = some u → I u) : I t := by
  induction hs with
  | refl => exact h0
  | tail hs' hok hn ih => exact hstep _ _ _ (hJ _ hs') ih hok hn

/-! ### Traces -/

/-- In the trace `l`, no event that satisfies `q` comes after one that satisfies `p`. -/
def NeverAfter (p q : α → Prop) (l : List α) : Prop := l.Pairwise fun a b => p a → ¬ q b

theorem NeverAfter.append {p q : α → Prop} {l evs : List α} (h : NeverAfter p q l)
    (hlen : evs.length ≤ 1) (hevs : (∃ a ∈ l, p a) → ∀ b ∈ evs, ¬ q b) :
    NeverAfter p q (l ++ evs) := by
  refine List.pairwise_append.mpr ⟨h, ?_, fun a ha b hb hp => hevs ⟨a, ha, hp⟩ b hb⟩
  match evs, hlen with
  | [], _ => exact .nil
  | [_], _ => exact List.pairwise_singleton _ _

/-! ### Executing a list of actions -/

/-- Perform the actions in order; `none` as soon as one of them is disabled. -/
def exec (next : σ → α → Option σ) : σ → List α → Option σ
  | s, [] => some s
  | s, a :: as => (next s a).bind fun t => exec next t as

@[simp] theorem exec_nil (s : σ) : exec next s [] = some s := rfl

@[simp] theorem exec_cons (s : σ) (a : α) (as : List α) :
    exec next s (a :: as) = (next s a).bind fun t => exec next t as := rfl

/-- Execution that also checks a decidable side condition before each action. -/
def execWhere (next : σ → α → Option σ) (ok : σ → α → Prop) [∀ s a, Decidable (ok s a)] :
    σ → List α → Option σ
  | s, [] => some s
  | s, a :: as => if ok s a then (next s a).bind fun t => execWhere next ok t as else none

theorem steps_of_execWhere [∀ s a, Decidable (ok s a)] (h : execWhere next ok s as = some t) :
    Steps next ok s t := by
  induction as generalizing s with
  | nil =>
    obtain rfl : s = t := some.inj h
    exact .refl _
  | cons a as ih =>
    rw [execWhere] at h
    split at h
    · rename_i hok
      obtain ⟨u, hu, ht⟩ := bind_eq_some_iff.mp h
      exact ((Steps.refl s).tail hok hu).trans (ih ht)
    · cases h

/-- What is decided of the state that some actions lead to, is so of a state that is reached. -/
theorem exists_of_execWhere (next : σ → α → Option σ) (ok : σ → α → Prop)
    [∀ s a, Decidable (ok s a)] (s : σ) (as : List α) (P : σ → Prop) [DecidablePred P]
    (h : (execWhere next ok s as).any (fun t => P t) = true) : ∃ t, Steps next ok s t ∧ P t := by
  cases ht : execWhere next ok s as with
  | none =>
    rw [ht] at h
    cases h
  | some t =>
    rw [ht] at h
    exact ⟨t, steps_of_execWhere ht, of_decide_eq_true h⟩

/-- What is decided of a start and of where a run from it ends. -/
theorem exists_of_any {ε τ : Type*} {x : Except ε σ} {run : σ → Option τ} {P : σ → τ → Prop}
    [∀ s t, Decidable (P s t)]
    (h : x.toOption.any (fun s => (run s).any fun t => P s t) = true) :
    ∃ s t, x = .ok s ∧ run s = some t ∧ P s t := by
  cases x with
  | error e => cases h
  | ok s =>
    obtain ⟨t, ht, hP⟩ := (any_eq_true _ (run s)).mp h
    exact ⟨s, t, rfl, ht, of_decide_eq_true hP⟩

/-- The state after a list of actions that are all possible and meet the side condition. -/
theorem steps_execWhere [∀ s a, Decidable (ok s a)] (h : (execWhere next ok s as).isSome = true) :
    Steps next ok s ((execWhere next ok s as).getD s) := by
  obtain ⟨t, ht⟩ := isSome_iff_exists.mp h
  rw [ht, getD_some]
  exact steps_of_execWhere ht

/-- Actions that meet the side condition in every state. -/
theorem steps_of_exec_of (hok : ∀ a ∈ as, ∀ s, ok s a) (h : exec next s as = some t) :
    Steps next ok s t := by
  induction as generalizing s with
  | nil =>
    obtain rfl : s = t := some.inj h
    exact .refl _
  | cons a as ih =>
    obtain ⟨u, hu, ht⟩ := bind_eq_some_iff.mp h
    obtain ⟨ha, has⟩ := List.forall_mem_cons.mp hok
    exact ((Steps.refl s).tail (ha s) hu).trans (ih has ht)

theorem steps_of_exec (h : exec next s as = some t) :
    Reachable next s t :=
  steps_of_exec_of (fun _ _ _ => trivial) h

end CometBFT
