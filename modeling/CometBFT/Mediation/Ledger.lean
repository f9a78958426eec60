import CometBFT.Mediation.Steps

/-!
# Ledgers of the mediation service

Eight resources of the service are handed out and taken back by its goroutines: the token of
`submitGate`, the two mutexes held across several accesses, the slots and the retained bytes of
the two queues, and the wait group. A `Ledger` says what the shared record books as handed out
and what a goroutine holds at each program counter. Every step of every goroutine keeps every
ledger, so each is a ledger of the machine, and the three locks are locks of it; that the books
agree with the goroutines, mutual exclusion and the lock rule are then the library's.

## Main results

* `Thread.step_kept` — every step keeps every ledger
* `balanced` — the books agree with the goroutines in every reachable state
* `oneInLock` — mutual exclusion
-/

namespace CometBFT.Mediation

open List

open Pool (total)

variable {P : Type*} {m : Service P}

/-! ### What a goroutine holds -/

/-- The token of `submitGate`. -/
@[simp] def holdsGate : Proc P → ℤ
  | .submit _ (.slot _) | .submit _ (.ready _) | .submit _ .dropSlot | .submit _ (.bytes _)
  | .submit _ (.reserve _) | .submit _ (.number _) | .submit _ (.undoBytes _ _)
  | .submit _ (.undoSlot _) | .submit _ (.enqueue _) | .submit _ (.leave _) => 1
  | .lifecycle (.teardown _ .closeOutbound) | .lifecycle (.teardown _ .putGate) => 1
  | _ => 0

/-- `callbackMu`. -/
@[simp] def holdsCallbackMu : Proc P → ℤ
  | .serve (.check _) | .serve (.slot _) | .serve (.bytes _) | .serve (.dropSlot _)
  | .serve (.reserve _) | .serve (.enqueue _) | .serve (.unlock _ _) => 1
  | .lifecycle (.teardown _ .closeCallback) | .lifecycle (.teardown _ .unlockCallback) => 1
  | _ => 0

/-- `lifecycleMu`. -/
@[simp] def holdsLifecycleMu : Proc P → ℤ
  | .lifecycle .startLock | .lifecycle .stopLock | .lifecycle .done => 0
  | .lifecycle _ => 1
  | _ => 0

/-- Tokens of `outboundSlots` that belong to no queued item: reserved by the `Submit` inside the
gate, or of an item popped by the worker or the shutdown drain and not yet released. -/
@[simp] def heldOutboundSlots : Proc P → ℤ
  | .submit _ (.ready _) | .submit _ .dropSlot | .submit _ (.bytes _) | .submit _ (.reserve _)
  | .submit _ (.number _) | .submit _ (.undoBytes _ _) | .submit _ (.undoSlot _)
  | .submit _ (.enqueue _) => 1
  | .submission (.slot _) => 1
  | .lifecycle (.teardown _ (.outboundSlot _)) => 1
  | _ => 0

/-- Bytes of `outboundBytes` that belong to no queued item: reserved by the `Submit` inside the
gate, or of the item that is being posted or drained. -/
@[simp] def heldOutboundBytes : Proc P → ℤ
  | .submit _ (.number p) | .submit _ (.undoBytes p _) => p.payload.length
  | .submit _ (.enqueue msg) => msg.Data.length
  | .submission (.slot i) | .submission (.post i) | .submission (.answer i _ _)
  | .submission (.bytes i _) => i.bytes
  | .lifecycle (.teardown _ (.outboundSlot i)) | .lifecycle (.teardown _ (.outboundBytes i)) =>
    i.bytes
  | _ => 0

/-- Tokens of `callbackSlots` that belong to no queued item: reserved by the handler inside
`callbackMu`, or of an item popped and not yet released. -/
@[simp] def heldCallbackSlots : Proc P → ℤ
  | .serve (.bytes _) | .serve (.dropSlot _) | .serve (.reserve _) | .serve (.enqueue _) => 1
  | .reinjection (.slot _) => 1
  | .lifecycle (.teardown _ (.callbackSlot _)) => 1
  | _ => 0

/-- Bytes of `callbackBytes` that belong to no queued item: reserved by the handler inside
`callbackMu`, or of the item that is being dispatched or drained. -/
@[simp] def heldCallbackBytes : Proc P → ℤ
  | .serve (.enqueue i) => i.bytes
  | .reinjection (.slot i) | .reinjection (.lookup i) | .reinjection (.running i _)
  | .reinjection (.dispatch i _ _) | .reinjection (.receive i _ _) | .reinjection (.bytes i _) =>
    i.bytes
  | .lifecycle (.teardown _ (.callbackSlot i)) | .lifecycle (.teardown _ (.callbackBytes i)) =>
    i.bytes
  | _ => 0

/-- A unit of the wait group. -/
@[simp] def isWorking : Proc P → ℤ
  | .submission (.stopped _) | .reinjection (.stopped _) => 0
  | .submission _ | .reinjection _ => 1
  | _ => 0

/-! ### The ledgers -/

/-- A resource: what the shared record books as handed out, and what a goroutine holds. -/
structure Ledger (P : Type*) where
  books : Shared → ℤ
  held : Proc P → ℤ

/-- A mutex as a resource of which there is one. -/
def taken (locked : Bool) : ℤ := cond locked 1 0

@[simp] theorem taken_true : taken true = 1 := rfl

@[simp] theorem taken_false : taken false = 0 := rfl

/-- The bytes of the items in a queue. -/
def queuedBytes {α : Type*} (bytes : α → ℤ) (q : Chan α) : ℤ := (q.buf.map bytes).sum

def gateLedger : Ledger P := ⟨fun s => 1 - s.submitGate, holdsGate⟩

def callbackMuLedger : Ledger P := ⟨fun s => taken s.callbackMu, holdsCallbackMu⟩

def lifecycleMuLedger : Ledger P := ⟨fun s => taken s.lifecycleMu, holdsLifecycleMu⟩

def outboundSlotsLedger : Ledger P :=
  ⟨fun s => s.outboundSlots - s.outboundQueue.buf.length, heldOutboundSlots⟩

def outboundBytesLedger : Ledger P :=
  ⟨fun s => s.outboundBytes - queuedBytes OutboundItem.bytes s.outboundQueue, heldOutboundBytes⟩

def callbackSlotsLedger : Ledger P :=
  ⟨fun s => s.callbackSlots - s.callbackQueue.buf.length, heldCallbackSlots⟩

def callbackBytesLedger : Ledger P :=
  ⟨fun s => s.callbackBytes - queuedBytes ReinjectionItem.bytes s.callbackQueue,
    heldCallbackBytes⟩

def workersLedger : Ledger P := ⟨fun s => s.workers, isWorking⟩

/-- All ledgers of the service. -/
def ledgers : List (Ledger P) :=
  [gateLedger, callbackMuLedger, lifecycleMuLedger, outboundSlotsLedger, outboundBytesLedger,
    callbackSlotsLedger, callbackBytesLedger, workersLedger]

attribute [local simp] ledgers gateLedger callbackMuLedger lifecycleMuLedger outboundSlotsLedger
  outboundBytesLedger callbackSlotsLedger callbackBytesLedger workersLedger

namespace Ledger

/-- A step of `t` with effect `r` books what it takes and what it gives back. -/
def Kept (L : Ledger P) (s : Shared) (t : Thread P) (r : Effect P) : Prop :=
  L.books r.shared + L.held t.proc =
    L.books s + L.held r.thread.proc + total (fun t => L.held t.proc) r.launched

/-- The books agree with what the goroutines hold. -/
def Balanced (L : Ledger P) (st : State P) : Prop :=
  L.books st.shared = total (fun t => L.held t.proc) st.threads

end Ledger

variable {s : Shared} {ch : Choice}

variable {t : Thread P}

/-- What has to be checked of a step that launches nothing, all ledgers at once. -/
theorem kept_of {r : Effect P} (hl : r.launched = [])
    (h : (r.shared.submitGate + holdsGate r.thread.proc = s.submitGate + holdsGate t.proc ∧
      taken r.shared.callbackMu + holdsCallbackMu t.proc =
        taken s.callbackMu + holdsCallbackMu r.thread.proc ∧
      taken r.shared.lifecycleMu + holdsLifecycleMu t.proc =
        taken s.lifecycleMu + holdsLifecycleMu r.thread.proc) ∧
      (r.shared.outboundSlots + s.outboundQueue.buf.length + heldOutboundSlots t.proc =
        s.outboundSlots + r.shared.outboundQueue.buf.length + heldOutboundSlots r.thread.proc ∧
      r.shared.outboundBytes + (s.outboundQueue.buf.map OutboundItem.bytes).sum +
          heldOutboundBytes t.proc =
        s.outboundBytes + (r.shared.outboundQueue.buf.map OutboundItem.bytes).sum +
          heldOutboundBytes r.thread.proc) ∧
      (r.shared.callbackSlots + s.callbackQueue.buf.length + heldCallbackSlots t.proc =
        s.callbackSlots + r.shared.callbackQueue.buf.length + heldCallbackSlots r.thread.proc ∧
      r.shared.callbackBytes + (s.callbackQueue.buf.map ReinjectionItem.bytes).sum +
          heldCallbackBytes t.proc =
        s.callbackBytes + (r.shared.callbackQueue.buf.map ReinjectionItem.bytes).sum +
          heldCallbackBytes r.thread.proc) ∧
      r.shared.workers + isWorking t.proc = s.workers + isWorking r.thread.proc) :
    ∀ L ∈ ledgers, L.Kept s t r := by
  obtain ⟨⟨h₁, h₂, h₃⟩, ⟨h₄, h₅⟩, ⟨h₆, h₇⟩, h₈⟩ := h
  simp only [ledgers, mem_cons, not_mem_nil, or_false, forall_eq_or_imp, forall_eq,
    Ledger.Kept, gateLedger, callbackMuLedger, lifecycleMuLedger, outboundSlotsLedger,
    outboundBytesLedger, callbackSlotsLedger, callbackBytesLedger, workersLedger, queuedBytes,
    hl, Pool.total_nil]
  omega

/-- **Every step of every goroutine keeps every ledger.** -/
theorem Thread.step_kept {r : Effect P} (h : t.step m s ch = some r) :
    ∀ L ∈ ledgers, L.Kept s t r := by
  cases Thread.stepped h <;> rename_i hr <;> cases hr
  case lifecycle.listen =>
    -- the only step that launches goroutines: two units of the wait group, two workers
    simp [Ledger.Kept, Thread.after]
  all_goals
    refine kept_of rfl ?_
    simp [*, Thread.after, Result.crash]
    try omega

/-! ### The books agree with the goroutines -/

/-- No ledger is about what the world writes. -/
theorem books_withWorld (s s' : Shared) : ∀ L ∈ ledgers (P := P), L.books (s.withWorld s') =
    L.books s := by
  simp [Shared.withWorld]

/-- A goroutine that has just made its call holds nothing. -/
theorem held_call (c : Call) : ∀ L ∈ ledgers (P := P), L.held c.thread.proc = 0 := by
  cases c <;> simp [Call.thread]

variable {st : State P} {L : Ledger P}

/-- A ledger of the service as one of its machine. -/
def Ledger.onThreads (m : Service P) (hL : L ∈ ledgers) : Goroutines.Ledger (machine m) where
  books := L.books
  held t := L.held t.proc
  held_call c := held_call c L hL
  books_world s _ s' _ := books_withWorld s s' L hL
  kept _ _ _ _ h := Thread.step_kept h L hL

theorem books_init : ∀ L ∈ ledgers (P := P), L.books {} = 0 := by
  simp [queuedBytes]

/-- **The books agree with the goroutines** in every reachable state. -/
theorem balanced (hr : m.Reaches st) (hL : L ∈ ledgers) : L.Balanced st :=
  (L.onThreads m hL).balanced (books_init L hL) hr

/-- A goroutine holds no more than the books say, if none can owe. -/
theorem held_le (hr : m.Reaches st) (hL : L ∈ ledgers) (hnonneg : ∀ p, 0 ≤ L.held p) {i : ℕ}
    (hi : st.threads[i]? = some t) : L.held t.proc ≤ L.books st.shared := by
  rw [balanced hr hL]
  exact Pool.le_total (f := fun t : Thread P => L.held t.proc) (fun t => hnonneg t.proc) hi

theorem isWorking_nonneg (p : Proc P) : 0 ≤ isWorking p := by
  unfold isWorking
  split <;> decide

/-- With the wait group at zero no worker is working. -/
theorem isWorking_eq_zero (hr : m.Reaches st) (hw : st.shared.workers = 0) {i : ℕ}
    (hi : st.threads[i]? = some t) : isWorking t.proc = 0 := by
  have hle := held_le (L := workersLedger) hr (by simp) isWorking_nonneg hi
  simp only [workersLedger, hw] at hle
  exact le_antisymm hle (isWorking_nonneg _)

/-! ### Mutual exclusion -/

/-- The resources of which there is one. -/
def locks : List (Ledger P) := [gateLedger, callbackMuLedger, lifecycleMuLedger]

theorem mem_ledgers_of_mem_locks (hL : L ∈ locks) : L ∈ ledgers := by
  simp only [locks, ledgers, mem_cons, not_mem_nil, or_false] at hL ⊢
  tauto

theorem locks_held_nonneg : ∀ L ∈ locks (P := P), ∀ p, 0 ≤ L.held p := by
  simp only [locks, gateLedger, callbackMuLedger, lifecycleMuLedger, mem_cons,
    not_mem_nil, or_false, forall_eq_or_imp, forall_eq]
  refine ⟨fun p => ?_, fun p => ?_, fun p => ?_⟩
  · unfold holdsGate
    split <;> decide
  · unfold holdsCallbackMu
    split <;> decide
  · unfold holdsLifecycleMu
    split <;> decide

theorem taken_le_one (b : Bool) : taken b ≤ 1 := by
  cases b <;> decide

theorem locks_books_le_one : ∀ L ∈ locks (P := P), ∀ s, L.books s ≤ 1 := by
  simp only [locks, gateLedger, callbackMuLedger, lifecycleMuLedger, mem_cons,
    not_mem_nil, or_false, forall_eq_or_imp, forall_eq]
  exact ⟨fun s => by omega, fun s => taken_le_one _, fun s => taken_le_one _⟩

/-- A goroutine that has just been launched holds no lock. -/
theorem locks_held_launched {r : Effect P} (h : t.step m s ch = some r) :
    ∀ L ∈ locks, ∀ u ∈ r.launched, L.held u.proc = 0 := by
  rcases Thread.step_launched h with hl | hl <;> rw [hl] <;>
    simp [locks]

/-- The goroutine holds the lock. -/
def Ledger.Holds (L : Ledger P) (t : Thread P) : Prop := L.held t.proc = 1

def Ledger.lock (m : Service P) (hL : L ∈ locks) : Goroutines.Lock (machine m) where
  toLedger := L.onThreads m (mem_ledgers_of_mem_locks hL)
  held_nonneg t := locks_held_nonneg L hL t.proc
  books_le_one := locks_books_le_one L hL
  held_launched _ _ _ _ h := locks_held_launched h L hL

/-- **Mutual exclusion.** At most one goroutine holds a lock. -/
theorem oneInLock (hr : m.Reaches st) (hL : L ∈ locks) : Pool.AtMostOne L.Holds st.threads :=
  (L.lock m hL).atMostOne (books_init L (mem_ledgers_of_mem_locks hL)) hr

/-- The token of `submitGate` is in the channel or with exactly one goroutine. -/
theorem gate_balance (hr : m.Reaches st) :
    st.shared.submitGate + total (fun t => holdsGate t.proc) st.threads = 1 := by
  have : gateLedger.Balanced st := balanced hr (by simp [ledgers])
  simp only [Ledger.Balanced, gateLedger] at this
  omega

end CometBFT.Mediation
