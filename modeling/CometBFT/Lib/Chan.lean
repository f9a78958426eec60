import Mathlib.Data.List.Basic

/-!
# Buffered channels

A Go channel of fixed capacity: sending blocks while it is full and panics once it is closed,
closing panics the second time, and a receiver that ranges over it sees every value sent before
the close and then the end.

## Main definitions

* `Outcome` — an operation is done, blocks, or panics
* `Chan.send`, `Chan.recv`, `Chan.close`
-/

namespace CometBFT

/-- The outcome of attempting a channel operation. -/
inductive Outcome (α : Type*) where
  | done (a : α)
  | blocks
  | panics

/-- A buffered channel: its contents, oldest first, and whether it has been closed. -/
structure Chan (α : Type*) where
  buf : List α := []
  closed : Bool := false

namespace Chan

variable {α : Type*}

/-- `ch <- x` on a channel of capacity `cap`. -/
def send (cap : ℕ) (ch : Chan α) (x : α) : Outcome (Chan α) :=
  if ch.closed then .panics
  else if ch.buf.length < cap then .done { ch with buf := ch.buf ++ [x] }
  else .blocks

/-- One receive of `for x := range ch`: the oldest value, or the end of the loop. -/
def recv (ch : Chan α) : Outcome (Option α × Chan α) :=
  match ch.buf with
  | x :: rest => .done (some x, { ch with buf := rest })
  | [] => if ch.closed then .done (none, ch) else .blocks

/-- `close(ch)`. -/
def close (ch : Chan α) : Outcome (Chan α) :=
  if ch.closed then .panics else .done { ch with closed := true }

variable {cap : ℕ} {ch ch' : Chan α} {x : α}

theorem send_eq_done :
    ch.send cap x = .done ch' ↔
      ch.closed = false ∧ ch.buf.length < cap ∧ ch' = ⟨ch.buf ++ [x], false⟩ := by
  unfold send
  cases hc : ch.closed <;> by_cases hl : ch.buf.length < cap <;> simp [hl, eq_comm]

theorem send_ne_blocks (h : ch.buf.length < cap) (x : α) : ch.send cap x ≠ .blocks := by
  unfold send
  rw [if_pos h]
  split <;> simp

theorem send_eq_panics : ch.send cap x = .panics ↔ ch.closed = true := by
  unfold send
  cases ch.closed <;> by_cases hl : ch.buf.length < cap <;> simp [hl]

theorem close_eq_done : ch.close = .done ch' ↔ ch.closed = false ∧ ch' = ⟨ch.buf, true⟩ := by
  unfold close
  cases ch.closed <;> simp [eq_comm]

theorem close_eq_panics : ch.close = .panics ↔ ch.closed = true := by
  unfold close
  cases ch.closed <;> simp

theorem recv_eq_some : ch.recv = .done (some x, ch') ↔
    ∃ buf, ch.buf = x :: buf ∧ ch' = ⟨buf, ch.closed⟩ := by
  unfold recv
  rcases ch with ⟨_ | ⟨y, rest⟩, c⟩
  · cases c <;> simp
  · simp [eq_comm]

theorem recv_eq_none : ch.recv = .done (none, ch') ↔ ch.buf = [] ∧ ch.closed = true ∧
    ch' = ch := by
  unfold recv
  rcases ch with ⟨_ | ⟨y, rest⟩, c⟩
  · cases c <;> simp [eq_comm]
  · simp

end Chan

end CometBFT
