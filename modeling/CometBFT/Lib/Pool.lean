import Mathlib.Algebra.Order.BigOperators.Group.List
import Mathlib.Tactic.Ring

/-!
# Pools of threads

A pool is a list of thread states: a thread is named by its position, a step rewrites one position
and may append new threads at the end. Three questions are asked of a pool: how much the threads
hold together of some resource (`total`), what every thread satisfies, and what is true of the
data a lock protects (`Guarded`). Each is answered here for a single step, so that a proof about
a machine only ever looks at the thread that moved.

## Main definitions

* `total` — what the threads of a pool hold together
* `AtMostOne` — mutual exclusion
* `Guarded` — a lock invariant: one statement while the lock is free, one for its holder

## Main results

* `balance_step` — books that follow the moving thread stay balanced with the pool
* `atMostOne_of_total` — a resource of which there is one excludes a second holder
* `Guarded.move` — a lock invariant after a step, by the four ways a thread can meet the lock
-/

namespace CometBFT.Pool

open List

variable {τ : Type*}

/-- What the threads of a pool hold together of a resource. -/
def total (f : τ → ℤ) (ts : List τ) : ℤ := (ts.map f).sum

@[simp] theorem total_nil (f : τ → ℤ) : total f [] = 0 := rfl

@[simp] theorem total_cons (f : τ → ℤ) (t : τ) (ts : List τ) :
    total f (t :: ts) = f t + total f ts := by
  simp [total]

@[simp] theorem total_append (f : τ → ℤ) (ts us : List τ) :
    total f (ts ++ us) = total f ts + total f us := by
  simp [total]

theorem total_map {ρ : Type*} (f : τ → ℤ) (g : ρ → τ) (us : List ρ) :
    total f (us.map g) = total (fun u => f (g u)) us := by
  simp [total, Function.comp_def]

variable {i j : ℕ} {t u t' : τ} {ts new : List τ} {f : τ → ℤ}

/-- One thread moves from `t` to `t'`: the total changes by the difference of what the two hold. -/
theorem total_set (f : τ → ℤ) (h : ts[i]? = some t) (t' : τ) :
    total f (ts.set i t') + f t = total f ts + f t' := by
  induction ts generalizing i with
  | nil => simp at h
  | cons u us ih =>
    cases i with
    | zero =>
      obtain rfl : u = t := by simpa using h
      rw [set_cons_zero, total_cons, total_cons]
      ring
    | succ i =>
      have := ih (i := i) (by simpa using h)
      rw [set_cons_succ, total_cons, total_cons]
      omega

/-- Books that change by what the moving thread and the threads it launched hold stay as far from
the total of the pool as they were. -/
theorem balance_step (f : τ → ℤ) {a a' : ℤ} (h : ts[i]? = some t)
    (hb : a' + f t = a + f t' + total f new) :
    a' - total f (ts.set i t' ++ new) = a - total f ts := by
  have := total_set f h t'
  rw [total_append]
  omega

theorem total_nonneg (hf : ∀ t ∈ ts, 0 ≤ f t) : 0 ≤ total f ts := by
  induction ts with
  | nil => simp
  | cons t ts ih =>
    rw [forall_mem_cons] at hf
    have := ih hf.2
    rw [total_cons]
    omega

theorem total_le_total {g : τ → ℤ} (h : ∀ t ∈ ts, f t ≤ g t) :
    total f ts ≤ total g ts := by
  induction ts with
  | nil => exact le_rfl
  | cons t ts ih =>
    rw [forall_mem_cons] at h
    rw [total_cons, total_cons]
    exact add_le_add h.1 (ih h.2)

/-- No thread holds more than the pool. -/
theorem le_total (hf : ∀ t, 0 ≤ f t) (h : ts[i]? = some t) : f t ≤ total f ts := by
  induction ts generalizing i with
  | nil => simp at h
  | cons u us ih =>
    have hu := hf u
    have hus : 0 ≤ total f us := total_nonneg fun t _ => hf t
    rw [total_cons]
    cases i with
    | zero =>
      obtain rfl : u = t := by simpa using h
      omega
    | succ i =>
      have := ih (i := i) (by simpa using h)
      omega

/-- Two different threads hold at most the total. -/
theorem add_le_total (hf : ∀ t, 0 ≤ f t) (hij : i ≠ j) (hi : ts[i]? = some t) (hj : ts[j]? = some u) :
    f t + f u ≤ total f ts := by
  induction ts generalizing i j with
  | nil => simp at hi
  | cons w ws ih =>
    have hw := hf w
    rw [total_cons]
    cases i with
    | zero =>
      obtain rfl : w = t := by simpa using hi
      cases j with
      | zero => exact absurd rfl hij
      | succ j =>
        have hj' : ws[j]? = some u := by simpa using hj
        have := le_total hf hj'
        omega
    | succ i =>
      cases j with
      | zero =>
        obtain rfl : w = u := by simpa using hj
        have hi' : ws[i]? = some t := by simpa using hi
        have := le_total hf hi'
        omega
      | succ j =>
        have := ih (i := i) (j := j) (by omega) (by simpa using hi) (by simpa using hj)
        omega

theorem total_eq_zero (h : ∀ t ∈ ts, f t = 0) : total f ts = 0 := by
  induction ts with
  | nil => rfl
  | cons t ts ih =>
    rw [total_cons, h t (mem_cons_self ..), ih fun u hu => h u (mem_cons_of_mem _ hu),
      add_zero]

/-! ### Threads after a step -/

/-- A thread of the pool after a step is the one that moved, one that did not, or a new one. -/
theorem getElem?_move (hi : ts[i]? = some t) (hj : (ts.set i t' ++ new)[j]? = some u) :
    (j = i ∧ u = t') ∨ (j ≠ i ∧ ts[j]? = some u) ∨ (ts.length ≤ j ∧ u ∈ new) := by
  have hlt : i < ts.length := (List.getElem?_eq_some_iff.mp hi).1
  by_cases hji : j = i
  · subst hji
    rw [getElem?_append_left (by simpa using hlt), getElem?_set_self hlt] at hj
    exact .inl ⟨rfl, (Option.some.inj hj).symm⟩
  · by_cases hjl : j < ts.length
    · rw [getElem?_append_left (by simpa using hjl),
        getElem?_set_ne (Ne.symm hji)] at hj
      exact .inr (.inl ⟨hji, hj⟩)
    · rw [getElem?_append_right (by simpa using hjl)] at hj
      exact .inr (.inr ⟨by omega, mem_of_getElem? hj⟩)

/-- What is new in a pool with one more thread is that thread. -/
theorem eq_of_getElem?_concat (hle : ts.length ≤ j) (hj : (ts ++ [t])[j]? = some u) :
    j = ts.length ∧ u = t := by
  rw [getElem?_append_right hle, getElem?_singleton] at hj
  split_ifs at hj with hzero
  exact ⟨by omega, (Option.some.inj hj).symm⟩

theorem getElem?_move_self (t' : τ) (hi : ts[i]? = some t) :
    (ts.set i t' ++ new)[i]? = some t' := by
  have hlt : i < ts.length := (List.getElem?_eq_some_iff.mp hi).1
  rw [List.getElem?_append_left (by simpa using hlt), List.getElem?_set_self hlt]

theorem getElem?_move_ne (t' : τ) (hji : j ≠ i) (hj : ts[j]? = some u) :
    (ts.set i t' ++ new)[j]? = some u := by
  have hlt : j < ts.length := (List.getElem?_eq_some_iff.mp hj).1
  rw [List.getElem?_append_left (by simpa using hlt), List.getElem?_set_ne (Ne.symm hji)]
  exact hj

/-! ### Locks -/

/-- At most one thread of the pool satisfies `p`. -/
def AtMostOne (p : τ → Prop) (ts : List τ) : Prop :=
  ∀ ⦃i j : ℕ⦄ ⦃t u : τ⦄, ts[i]? = some t → ts[j]? = some u → p t → p u → i = j

/-- If the threads hold at most one unit together, at most one of them holds one. -/
theorem atMostOne_of_total (hf : ∀ t, 0 ≤ f t) (h : total f ts ≤ 1) :
    AtMostOne (fun t => f t = 1) ts := by
  intro i j t u hi hj ht hu
  by_contra hij
  have := add_le_total hf hij hi hj
  omega

/-- The invariant that a lock protects: `free` is true while no thread holds it, and `held i t`
while thread `i`, in state `t`, does. -/
structure Guarded (holds : τ → Prop) (ts : List τ) (free : Prop) (held : ℕ → τ → Prop) : Prop where
  of_free : (∀ t ∈ ts, ¬ holds t) → free
  of_held : ∀ i t, ts[i]? = some t → holds t → held i t

variable {holds : τ → Prop} {ts new : List τ} {free free' : Prop} {held held' : ℕ → τ → Prop}

/-- Either the lock is free or somebody holds it. -/
theorem Guarded.free_or_held (h : Guarded holds ts free held) :
    free ∨ ∃ i t, ts[i]? = some t ∧ holds t ∧ held i t := by
  by_cases hnone : ∀ t ∈ ts, ¬ holds t
  · exact .inl (h.of_free hnone)
  · push Not at hnone
    obtain ⟨t, ht, hh⟩ := hnone
    obtain ⟨i, hi⟩ := getElem?_of_mem ht
    exact .inr ⟨i, t, hi, hh, h.of_held i t hi hh⟩

/-- **The lock rule.** After a step of thread `i` the lock invariant holds again, provided that
the thread keeps it while holding the lock, restores the free half when giving the lock back, sets
up its own half when taking it, and disturbs neither half when it has nothing to do with the
lock. -/
theorem Guarded.move (h : Guarded holds ts free held) (hi : ts[i]? = some t)
    (hone : AtMostOne holds ts) (hone' : AtMostOne holds (ts.set i t' ++ new))
    (hnew : ∀ u ∈ new, ¬ holds u) (keep : holds t → holds t' → held i t → held' i t')
    (give : holds t → ¬ holds t' → held i t → free')
    (take : ¬ holds t → holds t' → free → held' i t') (other : ¬ holds t → ¬ holds t' →
      (free → free') ∧ ∀ j u, ts[j]? = some u → holds u → held j u → held' j u) :
    Guarded holds (ts.set i t' ++ new) free' held' := by
  have hi' : (ts.set i t' ++ new)[i]? = some t' := getElem?_move_self t' hi
  constructor
  · intro hnone
    have ht' : ¬ holds t' := hnone t' (mem_of_getElem? hi')
    by_cases ht : holds t
    · exact give ht ht' (h.of_held i t hi ht)
    · refine (other ht ht').1 (h.of_free fun u hu hh => ?_)
      obtain ⟨j, hj⟩ := getElem?_of_mem hu
      by_cases hji : j = i
      · subst hji
        exact ht (Option.some.inj (hi.symm.trans hj) ▸ hh)
      · exact hnone u (mem_of_getElem? (getElem?_move_ne t' hji hj)) hh
  · intro j u hj hu
    rcases getElem?_move hi hj with ⟨rfl, rfl⟩ | ⟨hji, hj'⟩ | ⟨-, hmem⟩
    · by_cases ht : holds t
      · exact keep ht hu (h.of_held j t hi ht)
      · refine take ht hu (h.of_free fun w hw hh => ?_)
        obtain ⟨k, hk⟩ := getElem?_of_mem hw
        by_cases hkj : k = j
        · subst hkj
          exact ht (Option.some.inj (hi.symm.trans hk) ▸ hh)
        · exact hkj (hone' (getElem?_move_ne u hkj hk) hi' hh hu)
    · have ht : ¬ holds t := fun ht => hji (hone hj' hi hu ht)
      have ht' : ¬ holds t' := fun ht' => hji (hone' hj hi' hu ht')
      exact (other ht ht').2 j u hj' hu (h.of_held j u hj' hu)
    · exact absurd hu (hnew u hmem)

/-- New threads that do not hold the lock, and changes that both halves tolerate. -/
theorem Guarded.mono (h : Guarded holds ts free held) (hnew : ∀ u ∈ new, ¬ holds u)
    (hfree : free → free') (hheld : ∀ j u, ts[j]? = some u → held j u → held' j u) :
    Guarded holds (ts ++ new) free' held' := by
  constructor
  · intro hnone
    exact hfree (h.of_free fun u hu => hnone u (mem_append_left _ hu))
  · intro j u hj hu
    rcases lt_or_ge j ts.length with hjl | hjl
    · rw [getElem?_append_left hjl] at hj
      exact hheld j u hj (h.of_held j u hj hu)
    · rw [getElem?_append_right hjl] at hj
      exact absurd hu (hnew u (mem_of_getElem? hj))

end CometBFT.Pool
