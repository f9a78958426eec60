import CometBFT.Mediation.Shutdown

/-!
# Queue accounting

The slot channels and the byte counters of the two queues. Their agreement with the queues and the
goroutines is two of the ledgers; here follow the bounds: the bytes counted are never negative
and never above the configured limit, and there are never more slots than the queue has room for,
so that a sender holding a slot does not block. The last section is about what is left after
shutdown.

## Main results

* `outboundBytes_bounds`, `callbackBytes_bounds` — the byte counters stay within their limits
* `slots_le` — the slots stay within the capacity
* `queue_accounting` — the accounting invariant of the service
-/

namespace CometBFT.Mediation

open List Thread Goroutines

open Pool (total)

variable {P : Type*} {m : Service P} {s : Shared} {ch : Choice}

/-! ### No item has a negative size -/

/-- The size of the item that a goroutine carries. -/
@[simp] def weight : Proc P → ℤ
  | .serve (.lock i) | .serve (.check i) | .serve (.slot i) | .serve (.bytes i)
  | .serve (.dropSlot i) | .serve (.reserve i) | .serve (.enqueue i) => i.bytes
  | .submission (.slot i) | .submission (.post i) | .submission (.answer i _ _)
  | .submission (.bytes i _) => i.bytes
  | .reinjection (.slot i) | .reinjection (.lookup i) | .reinjection (.running i _)
  | .reinjection (.dispatch i _ _) | .reinjection (.receive i _ _) | .reinjection (.bytes i _) =>
    i.bytes
  | .lifecycle (.teardown _ (.outboundSlot i)) | .lifecycle (.teardown _ (.outboundBytes i)) =>
    i.bytes
  | .lifecycle (.teardown _ (.callbackSlot i)) | .lifecycle (.teardown _ (.callbackBytes i)) =>
    i.bytes
  | _ => 0

/-- No queued item has a negative size. -/
def Shared.Sized (s : Shared) : Prop :=
  (∀ i ∈ s.outboundQueue.buf, 0 ≤ i.bytes) ∧ ∀ i ∈ s.callbackQueue.buf, 0 ≤ i.bytes

theorem Service.checkPayload_bytes {outer : ControllerMessage} {i : ReinjectionItem}
    (h : m.checkPayload outer = .ok i) : i.bytes = i.wrapped.length := by
  unfold Service.checkPayload at h
  repeat' split at h
  all_goals cases h
  rfl

variable {t : Thread P} {r : Effect P}

/-- Sizes stay non-negative along a step. -/
theorem Thread.step_weight (h : t.step m s ch = some r) (hs : s.Sized) (hw : 0 ≤ weight t.proc) :
    r.shared.Sized ∧ 0 ≤ weight r.thread.proc := by
  cases stepped h <;> rename_i hr <;> cases hr
  case submit.enqueue =>
    refine ⟨⟨forall_mem_append.mpr ⟨hs.1, forall_mem_singleton.mpr ?_⟩, hs.2⟩, le_rfl⟩
    exact Int.natCast_nonneg _
  case serve.payload hi => exact ⟨hs, by simp [after, Service.checkPayload_bytes hi]⟩
  case serve.enqueue =>
    exact ⟨⟨hs.1, forall_mem_append.mpr ⟨hs.2, forall_mem_singleton.mpr hw⟩⟩, le_rfl⟩
  case submission.recv hb | lifecycle.drainOutbound hb =>
    obtain ⟨hi, hall⟩ := forall_mem_cons.mp (hb ▸ hs.1)
    exact ⟨⟨hall, hs.2⟩, hi⟩
  case reinjection.recv hb | lifecycle.drainCallback hb =>
    obtain ⟨hi, hall⟩ := forall_mem_cons.mp (hb ▸ hs.2)
    exact ⟨⟨hs.1, hall⟩, hi⟩
  all_goals exact ⟨hs, by first | exact hw | exact le_rfl⟩

variable {st : State P}

/-- No item has a negative size, in a queue or with a goroutine. -/
theorem sized (hr : m.Reaches st) :
    st.shared.Sized ∧ ∀ t ∈ st.threads, 0 ≤ weight t.proc := by
  refine Machine.invariant ⟨⟨by simp [start], by simp [start]⟩, by simp [start]⟩ ?_
    (fun _ _ _ _ ih _ => ih) ?_ hr
  · intro st c _ ih
    refine ⟨ih.1, fun t ht => ?_⟩
    rcases mem_append.mp ht with ht | ht
    · exact ih.2 t ht
    · rw [mem_singleton.mp ht]
      cases c <;> exact le_rfl
  · rintro st i ch t r ⟨-, -, -, hi, hstep⟩ ih
    obtain ⟨h₁, h₂⟩ := step_weight hstep ih.1 (ih.2 t (mem_of_getElem? hi))
    refine ⟨h₁, fun u hu => ?_⟩
    obtain ⟨j, hj⟩ := getElem?_of_mem hu
    rcases Pool.getElem?_move hi hj with ⟨rfl, rfl⟩ | ⟨-, hj'⟩ | ⟨-, hmem⟩
    · exact h₂
    · exact ih.2 u (mem_of_getElem? hj')
    · rcases mem_launched hstep hmem with rfl | rfl | rfl <;> exact le_rfl

/-! ### The byte counters stay within their limits -/

/-- What a `Submit` that has found room is about to add to `outboundBytes`. -/
@[simp] def outboundClaim : Proc P → Option ℤ
  | .submit _ (.reserve p) => some p.payload.length
  | _ => none

/-- What an `acceptCallback` that has found room is about to add to `callbackBytes`. -/
@[simp] def callbackClaim : Proc P → Option ℤ
  | .serve (.reserve i) => some i.bytes
  | _ => none

/-- `outboundBytes` grows only where `Submit` reserves. -/
theorem Thread.step_outboundBytes (h : t.step m s ch = some r) (hw : 0 ≤ weight t.proc) :
    r.shared.outboundBytes ≤ s.outboundBytes ∨ ∃ n, outboundClaim t.proc = some n ∧
      r.shared.outboundBytes = s.outboundBytes + n := by
  cases stepped h <;> rename_i hr <;> cases hr
  case submit.reserve => exact .inr ⟨_, rfl, rfl⟩
  case submit.undoBytes => exact .inl (Int.sub_le_self _ (Int.natCast_nonneg _))
  case submission.bytes | submission.fatal | lifecycle.outboundBytes =>
    exact .inl (Int.sub_le_self _ hw)
  all_goals exact .inl le_rfl

/-- `callbackBytes` grows only where `acceptCallback` reserves. -/
theorem Thread.step_callbackBytes (h : t.step m s ch = some r) (hw : 0 ≤ weight t.proc) :
    r.shared.callbackBytes ≤ s.callbackBytes ∨ ∃ n, callbackClaim t.proc = some n ∧
      r.shared.callbackBytes = s.callbackBytes + n := by
  cases stepped h <;> rename_i hr <;> cases hr
  case serve.reserve => exact .inr ⟨_, rfl, rfl⟩
  case reinjection.bytes | reinjection.fatal | lifecycle.callbackBytes =>
    exact .inl (Int.sub_le_self _ hw)
  all_goals exact .inl le_rfl

/-- A `Submit` comes to the point of reserving only after it has found room. -/
theorem Thread.step_outboundClaim {n : ℤ} (h : t.step m s ch = some r)
    (hn : outboundClaim r.thread.proc = some n) :
    r.shared.outboundBytes = s.outboundBytes ∧
      (outboundClaim t.proc = some n ∨ s.outboundBytes + n ≤ m.limits.outboundQueueBytes) := by
  cases stepped h <;> rename_i hr <;> cases hr <;> try cases hn
  case submit.bytes hb => exact ⟨rfl, .inr (not_lt.mp hb)⟩
  all_goals exact ⟨rfl, .inl hn⟩

/-- An `acceptCallback` comes to the point of reserving only after it has found room. -/
theorem Thread.step_callbackClaim {n : ℤ} (h : t.step m s ch = some r)
    (hn : callbackClaim r.thread.proc = some n) :
    r.shared.callbackBytes = s.callbackBytes ∧
      (callbackClaim t.proc = some n ∨ s.callbackBytes + n ≤ m.limits.callbackQueueBytes) := by
  cases stepped h <;> rename_i hr <;> cases hr <;> try cases hn
  case serve.bytes hb => exact ⟨rfl, .inr (not_lt.mp hb)⟩
  all_goals exact ⟨rfl, .inl hn⟩

section

variable {L : Ledger P} {B : Shared → ℤ} {limit : ℤ} {C : Proc P → Option ℤ}

/-- **Check, then reserve, under one lock.** A counter that grows only by what the holder of a
lock has found room for stays within its limit: between the check and the addition it can only
shrink. -/
theorem bytes_le (hL : L ∈ locks) (hlim : 0 ≤ limit) (h0 : B {} = 0)
    (hclaim : ∀ p n, C p = some n → L.held p = 1)
    (hworld : ∀ s s', B ((machine m).owned s s') = B s)
    (hgrow : ∀ s (t : Thread P) ch r, t.step m s ch = some r → 0 ≤ weight t.proc →
      B r.shared ≤ B s ∨ ∃ n, C t.proc = some n ∧ B r.shared = B s + n)
    (hroom : ∀ s (t : Thread P) ch r n, t.step m s ch = some r → C r.thread.proc = some n →
      B r.shared = B s ∧ (C t.proc = some n ∨ B s + n ≤ limit)) (hr : m.Reaches st) :
    B st.shared ≤ limit := by
  have hfresh : ∀ {u : Thread P} {n : ℤ}, L.held u.proc = 0 → C u.proc ≠ some n := by
    intro u n hu hn
    rw [hclaim _ _ hn] at hu
    cases hu
  have hq : ∀ {st : State P}, m.Reaches st → ∀ (i : ℕ) (t : Thread P), st.threads[i]? = some t →
      ∀ n, C t.proc = some n → B st.shared + n ≤ limit := by
    intro st hr i t hi
    refine Machine.threads_invariant ?_ (fun _ _ _ _ _ h => h) ?_ ?_ ?_ ?_ hr hi
    · intro st c _ n hn
      exact absurd hn (hfresh (held_call c L (mem_ledgers_of_mem_locks hL)))
    · intro st w s' i t _ ih _
      rw [hworld]
      exact ih
    · intro st i ch t r hmv ih n hn
      obtain ⟨heq, hold | hnew⟩ := hroom _ _ _ _ n hmv.step hn
      · exact heq ▸ ih i t hmv.thread n hold
      · exact heq ▸ hnew
    · intro st i ch t r j u hmv hji hj ih n hn
      have hw := (sized hmv.runs).2 t (mem_of_getElem? hmv.thread)
      rcases hgrow _ _ _ _ hmv.step hw with hle | ⟨k, hk, -⟩
      · exact (Int.add_le_add_right hle n).trans (ih n hn)
      · exact absurd (oneInLock hmv.runs hL hj hmv.thread (hclaim _ _ hn) (hclaim _ _ hk)) hji
    · intro st i ch t r j u hmv _ hu n hn
      exact absurd hn (hfresh (locks_held_launched hmv.step L hL u hu))
  refine Machine.invariant (h0.trans_le hlim)
    (fun _ _ _ ih => ih) ?_ ?_ hr
  · intro st w s' _ ih _
    rw [hworld]
    exact ih
  · rintro st i ch t r ⟨hreach, -, -, hi, hstep⟩ ih
    rcases hgrow _ _ _ _ hstep ((sized hreach).2 t (mem_of_getElem? hi)) with hle | ⟨n, hn, heq⟩
    · exact hle.trans ih
    · exact heq.trans_le (hq hreach i t hi n hn)

end

variable {p : Proc P}

theorem heldOutboundBytes_nonneg (hw : 0 ≤ weight p) : 0 ≤ heldOutboundBytes p := by
  unfold heldOutboundBytes
  split <;> first | exact hw | exact Int.natCast_nonneg _

theorem heldCallbackBytes_nonneg (hw : 0 ≤ weight p) : 0 ≤ heldCallbackBytes p := by
  unfold heldCallbackBytes
  split <;> first | exact hw | exact le_rfl

theorem queuedBytes_nonneg {α : Type*} {bytes : α → ℤ} {q : Chan α}
    (h : ∀ i ∈ q.buf, 0 ≤ bytes i) : 0 ≤ queuedBytes bytes q := by
  refine sum_nonneg fun n hn => ?_
  obtain ⟨i, hi, rfl⟩ := mem_map.mp hn
  exact h i hi

/-- **`outboundBytes` is never negative and never exceeds `OutboundQueueBytes`.** -/
theorem outboundBytes_bounds (hr : m.Reaches st) :
    0 ≤ st.shared.outboundBytes ∧ st.shared.outboundBytes ≤ m.limits.outboundQueueBytes := by
  constructor
  · have hb : outboundBytesLedger.Balanced st := balanced hr (by simp [ledgers])
    obtain ⟨⟨hs, -⟩, hw⟩ := sized hr
    have h₁ := queuedBytes_nonneg hs
    have h₂ := Pool.total_nonneg fun t ht => heldOutboundBytes_nonneg (hw t ht)
    simp only [Ledger.Balanced, outboundBytesLedger] at hb
    omega
  · refine bytes_le (L := gateLedger) (B := Shared.outboundBytes) (C := outboundClaim)
      (by simp [locks]) (Int.natCast_nonneg _) rfl (fun p n hn => ?_) (fun _ _ => rfl)
      (fun _ _ _ _ => step_outboundBytes) (fun _ _ _ _ _ => step_outboundClaim) hr
    unfold outboundClaim at hn
    split at hn <;> cases hn
    rfl

/-- **`callbackBytes` is never negative and never exceeds `CallbackQueueBytes`.** -/
theorem callbackBytes_bounds (hr : m.Reaches st) :
    0 ≤ st.shared.callbackBytes ∧ st.shared.callbackBytes ≤ m.limits.callbackQueueBytes := by
  constructor
  · have hb : callbackBytesLedger.Balanced st := balanced hr (by simp [ledgers])
    obtain ⟨⟨-, hs⟩, hw⟩ := sized hr
    have h₁ := queuedBytes_nonneg hs
    have h₂ := Pool.total_nonneg fun t ht => heldCallbackBytes_nonneg (hw t ht)
    simp only [Ledger.Balanced, callbackBytesLedger] at hb
    omega
  · refine bytes_le (L := callbackMuLedger) (B := Shared.callbackBytes) (C := callbackClaim)
      (by simp [locks]) (Int.natCast_nonneg _) rfl (fun p n hn => ?_) (fun _ _ => rfl)
      (fun _ _ _ _ => step_callbackBytes) (fun _ _ _ _ _ => step_callbackClaim) hr
    unfold callbackClaim at hn
    split at hn <;> cases hn
    rfl

/-! ### There is room for everyone who holds a slot -/

/-- A slot is taken only where there is one. -/
theorem Thread.step_slots (h : t.step m s ch = some r) :
    (r.shared.outboundSlots ≤ s.outboundSlots ∨
      r.shared.outboundSlots ≤ m.limits.outboundQueueCapacity) ∧
    (r.shared.callbackSlots ≤ s.callbackSlots ∨
      r.shared.callbackSlots ≤ m.limits.callbackQueueCapacity) := by
  cases stepped h <;> rename_i hr <;> cases hr
  case submit.slot hs => exact ⟨.inr hs.2, .inl le_rfl⟩
  case serve.slot hs => exact ⟨.inl le_rfl, .inr hs⟩
  all_goals exact ⟨.inl (by first | exact le_rfl | exact Nat.sub_le _ _),
    .inl (by first | exact le_rfl | exact Nat.sub_le _ _)⟩

/-- There are never more slots taken than the queue has room for items. -/
theorem slots_le (hr : m.Reaches st) :
    st.shared.outboundSlots ≤ m.limits.outboundQueueCapacity ∧
    st.shared.callbackSlots ≤ m.limits.callbackQueueCapacity := by
  refine Machine.invariant ⟨Nat.zero_le _, Nat.zero_le _⟩ (fun _ _ _ ih => ih) (fun _ _ _ _ ih _ => ih) ?_ hr
  rintro st i ch t r ⟨-, -, -, -, hstep⟩ ih
  obtain ⟨h₁, h₂⟩ := step_slots hstep
  rw [Goroutines.Config.move_shared]
  omega

theorem heldOutboundSlots_nonneg (p : Proc P) : 0 ≤ heldOutboundSlots p := by
  unfold heldOutboundSlots
  split <;> decide

theorem heldCallbackSlots_nonneg (p : Proc P) : 0 ≤ heldCallbackSlots p := by
  unfold heldCallbackSlots
  split <;> decide

/-- A goroutine that holds a slot of `outboundQueue` finds room in it. -/
theorem outbound_room (hr : m.Reaches st) {i : ℕ} (hi : st.threads[i]? = some t)
    (ht : heldOutboundSlots t.proc = 1) :
    st.shared.outboundQueue.buf.length < m.limits.outboundQueueCapacity := by
  have hle := held_le (L := outboundSlotsLedger) hr (by simp [ledgers]) heldOutboundSlots_nonneg hi
  have hcap := (slots_le hr).1
  simp only [outboundSlotsLedger] at hle
  omega

/-- A goroutine that holds a slot of `callbackQueue` finds room in it. -/
theorem callback_room (hr : m.Reaches st) {i : ℕ} (hi : st.threads[i]? = some t)
    (ht : heldCallbackSlots t.proc = 1) :
    st.shared.callbackQueue.buf.length < m.limits.callbackQueueCapacity := by
  have hle := held_le (L := callbackSlotsLedger) hr (by simp [ledgers]) heldCallbackSlots_nonneg hi
  have hcap := (slots_le hr).2
  simp only [callbackSlotsLedger] at hle
  omega

/-! ### After shutdown -/

/-- A `Submit` that holds a slot and has not been admitted. -/
def lateSubmit : Proc P → Bool
  | .submit _ (.ready _) | .submit _ .dropSlot => true
  | _ => false

theorem holds_of_lateSubmit (h : lateSubmit p = true) :
    holdsGate p = 1 ∧ heldOutboundSlots p = 1 := by
  unfold lateSubmit at h
  split at h <;> first | exact ⟨rfl, rfl⟩ | cases h

/-- A goroutine that is neither a working worker, nor in a teardown, nor past its readiness check
holds nothing but perhaps a slot that it has not been admitted with. -/
theorem held_idle (hw : isWorking p = 0) (ht : ∀ ret pc, p ≠ .lifecycle (.teardown ret pc))
    (ha : admitted p = false) (hc : accepting p = false) :
    heldOutboundBytes p = 0 ∧ heldCallbackSlots p = 0 ∧ heldCallbackBytes p = 0 ∧
      (heldOutboundSlots p = 0 ∨ lateSubmit p = true) := by
  cases p
  case submit c pc => cases pc <;> simp_all [lateSubmit]
  case serve pc => cases pc <;> simp_all
  case submission pc => cases pc <;> simp_all
  case reinjection pc => cases pc <;> simp_all
  case lifecycle pc =>
    cases pc
    case teardown ret pc => exact absurd rfl (ht ret pc)
    all_goals simp
  all_goals simp

/-- The slots held outside an empty queue by late `Submit`s are one at most: they are inside the
gate. -/
theorem outboundSlots_late (hr : m.Reaches st) (hempty : st.shared.outboundQueue.buf = [])
    (hidle : ∀ t ∈ st.threads, heldOutboundSlots t.proc = 0 ∨ lateSubmit t.proc = true) :
    st.shared.outboundSlots = 0 ∨ st.shared.outboundSlots = 1 ∧
      ∃ t ∈ st.threads, lateSubmit t.proc = true := by
  have hb : outboundSlotsLedger.Balanced st := balanced hr (by simp [ledgers])
  simp only [Ledger.Balanced, outboundSlotsLedger, hempty, length_nil, Nat.cast_zero,
    sub_zero] at hb
  by_cases hall : ∀ t ∈ st.threads, heldOutboundSlots t.proc = 0
  · rw [Pool.total_eq_zero hall] at hb
    exact .inl (by omega)
  · push Not at hall
    obtain ⟨t, hmem, hne⟩ := hall
    have hlate := (hidle t hmem).resolve_left hne
    have hle : total (fun t => heldOutboundSlots t.proc) st.threads ≤
        total (fun t => holdsGate t.proc) st.threads := by
      refine Pool.total_le_total fun u hu => ?_
      rcases hidle u hu with h0 | h1
      · rw [h0]
        exact locks_held_nonneg gateLedger (by simp [locks]) u.proc
      · obtain ⟨h₁, h₂⟩ := holds_of_lateSubmit h1
        rw [h₁, h₂]
    obtain ⟨i, hi⟩ := getElem?_of_mem hmem
    have hge := held_le (L := outboundSlotsLedger) hr (by simp [ledgers]) heldOutboundSlots_nonneg hi
    simp only [outboundSlotsLedger, (holds_of_lateSubmit hlate).2, hempty, length_nil] at hge
    have hone := gate_balance hr
    exact .inr ⟨by omega, t, hmem, hlate⟩

/-- **Nothing stays reserved** once `releaseQueuedReservations` has returned. -/
theorem released_accounts (hr : m.Reaches st) (hpos : 0 < st.count Event.isReleased) :
    st.shared.outboundBytes = 0 ∧ st.shared.callbackBytes = 0 ∧ st.shared.callbackSlots = 0 ∧
    (st.shared.outboundSlots = 0 ∨ st.shared.outboundSlots = 1 ∧
      ∃ t ∈ st.threads, lateSubmit t.proc = true) := by
  have hset := released_settled hr hpos
  have hidle : ∀ t ∈ st.threads, heldOutboundBytes t.proc = 0 ∧ heldCallbackSlots t.proc = 0 ∧
      heldCallbackBytes t.proc = 0 ∧
      (heldOutboundSlots t.proc = 0 ∨ lateSubmit t.proc = true) := by
    intro t ht
    obtain ⟨i, hi⟩ := getElem?_of_mem ht
    refine held_idle (isWorking_eq_zero hr hset.workers hi)
      (fun ret pc => not_teardown_of_released hr hpos hi ret pc)
      (Bool.eq_false_iff.mpr fun ha => ?_) (Bool.eq_false_iff.mpr fun ha => ?_)
    · have := (outbound_open hr hi ha).1
      rw [hset.outboundClosed] at this
      cases this
    · have := (callback_open hr hi ha).1
      rw [hset.callbackClosed] at this
      cases this
  have h₁ : outboundBytesLedger.Balanced st := balanced hr (by simp [ledgers])
  have h₂ : callbackBytesLedger.Balanced st := balanced hr (by simp [ledgers])
  have h₃ : callbackSlotsLedger.Balanced st := balanced hr (by simp [ledgers])
  simp only [Ledger.Balanced, outboundBytesLedger, callbackBytesLedger, callbackSlotsLedger,
    queuedBytes, hset.outboundEmpty, hset.callbackEmpty, map_nil, sum_nil,
    length_nil, Nat.cast_zero, sub_zero] at h₁ h₂ h₃
  rw [Pool.total_eq_zero fun t ht => (hidle t ht).1] at h₁
  rw [Pool.total_eq_zero fun t ht => (hidle t ht).2.2.1] at h₂
  rw [Pool.total_eq_zero fun t ht => (hidle t ht).2.1] at h₃
  exact ⟨h₁, h₂, by omega,
    outboundSlots_late hr hset.outboundEmpty fun t ht => (hidle t ht).2.2.2⟩

/-! ### The accounting invariant -/

/-- **Queue accounting.** In every reachable state the slot channels and byte counters are those of
the queued items plus what the goroutines hold: reserved by the one inside the gate or
`callbackMu`, or popped by a worker or the shutdown drain and not yet released. The byte counters
are never negative nor above their limits, and a goroutine holding a slot can send without
blocking. Once `releaseQueuedReservations` has returned, which it has when `Stop` has returned and
there is no fatal error, the byte counters and `callbackSlots` are zero, and so is `outboundSlots`
but for the slot of a `Submit` that has not been admitted. -/
theorem queue_accounting (m : Service P) {st : State P} (hr : m.Reaches st) :
    (st.shared.outboundSlots = st.shared.outboundQueue.buf.length +
        total (fun t => heldOutboundSlots t.proc) st.threads ∧
      st.shared.outboundBytes = queuedBytes OutboundItem.bytes st.shared.outboundQueue +
        total (fun t => heldOutboundBytes t.proc) st.threads ∧
      0 ≤ st.shared.outboundBytes ∧ st.shared.outboundBytes ≤ m.limits.outboundQueueBytes) ∧
    (st.shared.callbackSlots = st.shared.callbackQueue.buf.length +
        total (fun t => heldCallbackSlots t.proc) st.threads ∧
      st.shared.callbackBytes = queuedBytes ReinjectionItem.bytes st.shared.callbackQueue +
        total (fun t => heldCallbackBytes t.proc) st.threads ∧
      0 ≤ st.shared.callbackBytes ∧ st.shared.callbackBytes ≤ m.limits.callbackQueueBytes) ∧
    (∀ t ∈ st.threads,
      (heldOutboundSlots t.proc = 1 → ∀ i,
        st.shared.outboundQueue.send m.limits.outboundQueueCapacity i ≠ .blocks) ∧
      (heldCallbackSlots t.proc = 1 → ∀ i,
        st.shared.callbackQueue.send m.limits.callbackQueueCapacity i ≠ .blocks)) ∧
    ((0 < st.count Event.isReleased ∨
        0 < st.count Event.isStopReturned ∧ st.shared.fatalErr = none) →
      st.shared.outboundBytes = 0 ∧ st.shared.callbackBytes = 0 ∧ st.shared.callbackSlots = 0 ∧
      (st.shared.outboundSlots = 0 ∨ st.shared.outboundSlots = 1 ∧
        ∃ t ∈ st.threads, lateSubmit t.proc = true)) := by
  have h₁ : outboundSlotsLedger.Balanced st := balanced hr (by simp [ledgers])
  have h₂ : outboundBytesLedger.Balanced st := balanced hr (by simp [ledgers])
  have h₃ : callbackSlotsLedger.Balanced st := balanced hr (by simp [ledgers])
  have h₄ : callbackBytesLedger.Balanced st := balanced hr (by simp [ledgers])
  simp only [Ledger.Balanced, outboundSlotsLedger, outboundBytesLedger, callbackSlotsLedger,
    callbackBytesLedger] at h₁ h₂ h₃ h₄
  refine ⟨⟨by omega, by omega, outboundBytes_bounds hr⟩,
    ⟨by omega, by omega, callbackBytes_bounds hr⟩, fun t ht => ⟨fun hs i => ?_, fun hs i => ?_⟩,
    fun h => released_accounts hr ?_⟩
  · obtain ⟨j, hj⟩ := getElem?_of_mem ht
    exact Chan.send_ne_blocks (outbound_room hr hj hs) i
  · obtain ⟨j, hj⟩ := getElem?_of_mem ht
    exact Chan.send_ne_blocks (callback_room hr hj hs) i
  · rcases h with h | ⟨hret, hnone⟩
    · exact h
    · refine (tornDown_of_stopReturned hr hret).resolve_right fun hsome => ?_
      rw [hnone] at hsome
      cases hsome

theorem queue_accounting_sample :
    let st := sample.after (startRun ++ submitRun ++ postRun ++ stopRun)
    (st.count Event.isReleased = 1 ∧ st.count Event.isStopReturned = 1) ∧
      st.shared.outboundBytes = 0 :=
  ⟨by decide, ((queue_accounting sample (sample.reaches_after (by decide))).2.2.2
    (.inl (by decide))).1⟩

/-- A second vote is accepted while the first is being posted; `Stop` then gives up waiting. -/
def timeoutRun : List Action :=
  startRun ++ submitRun ++ [go 1, go 1, go 1] ++
    .call (.submit ⟨samplePeer, voteChannel, .vote, [7], .blocking⟩) :: replicate 9 (go 5) ++
    .call .stop :: replicate 10 (go 6) ++
    [.run 6 .timer, go 6, go 6, go 6, go 6, .run 1 .fail, go 1, go 1, go 1, go 2, go 2]

/-- A `Submit` that comes after `Stop` has returned, caught before its readiness check. -/
def lateRun : List Action :=
  startRun ++ submitRun ++ postRun ++ stopRun ++
    .call (.submit ⟨samplePeer, voteChannel, .vote, [7], .nonBlocking⟩) :: replicate 3 (go 6)

/-- After `Stop` has returned and both workers have stopped, bytes and a slot may still be
reserved: if `Stop` gave up waiting, by a message that no worker took; and in any case by a `Submit`
passing through. -/
theorem reserved_after_stop :
    (let st := sample.after timeoutRun;
      sample.Reaches st ∧ st.count Event.isStopReturned = 1 ∧ st.shared.workers = 0 ∧
        st.shared.outboundBytes = 7 ∧ st.shared.outboundSlots = 1) ∧
    (let st := sample.after lateRun;
      sample.Reaches st ∧ st.count Event.isStopReturned = 1 ∧ st.shared.workers = 0 ∧
        st.shared.fatalErr = none ∧ st.shared.outboundSlots = 1) :=
  ⟨⟨sample.reaches_after (by decide), by decide⟩, ⟨sample.reaches_after (by decide), by decide⟩⟩

end CometBFT.Mediation
