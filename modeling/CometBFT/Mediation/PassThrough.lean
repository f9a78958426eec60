import CometBFT.Consensus.Msgs
import CometBFT.Mediation.Admission
import CometBFT.Mediation.Alone
import CometBFT.Mediation.Config

/-!
# Pass-through

What one node submits, another accepts. Every message for which `Submit` returns true carries the
frame of its payload, the label of its type, the identity of its sender and an ID that is issued from
a `uint64`; and every check of `serveMessage` at the node it is addressed to lets such a message pass,
if both nodes run the native Reactors and the receiver's configuration is valid. What is then handed
to the Reactor is what the ordinary receive path would have handed to it.

## Main results

* `submits` — what a message is for which `Submit` returned true
* `checkOuter_submitted`, `checkPayload_submitted` — no check at the other end refuses it
* `pass_through` — it is answered with `202` and dispatched as a direct message would be
-/

namespace CometBFT.Mediation

open List ControllerMediationConfig Service Goroutines

variable {P : Type*} {m : Service P} {s : Shared} {ch : Choice}

/-! ### Counters are `uint64` -/

def Shared.CountersFit (s : Shared) : Prop := ∀ d n, s.counters d = some n → n < 2 ^ 64

theorem Service.nextID_countersFit {d : ID} {s' : Shared} {id : Bytes} (hs : s.CountersFit)
    (h : m.nextID s d = .ok (s', id)) :
    s'.CountersFit ∧ ∃ n < 2 ^ 64, id = messageID m.localID d n := by
  have hupdate : ∀ k < 2 ^ 64, ∀ d' n,
      Function.update s.counters d (some k) d' = some n → n < 2 ^ 64 := by
    intro k hk d' n hn
    rcases update_eq_some hn with ⟨-, rfl⟩ | ⟨-, hold⟩
    · exact hk
    · exact hs d' n hold
  unfold nextID at h
  split at h <;> rename_i hc <;> split at h <;> cases h
  · exact ⟨hupdate 1 (by norm_num), 0, by norm_num, rfl⟩
  · rename_i next hmax
    have hlt := hs d next hc
    exact ⟨hupdate (next + 1) (by omega), next, hlt, rfl⟩

theorem Thread.step_countersFit {t : Thread P} {r : Effect P}
    (h : t.step m s ch = some r) (hs : s.CountersFit) : r.shared.CountersFit := by
  cases Thread.stepped h <;> rename_i hr <;> cases hr
  case submit.number hn => exact (nextID_countersFit hs hn).1
  all_goals exact hs

theorem countersFit {st : State P} (hr : m.Reaches st) : st.shared.CountersFit := by
  refine Machine.invariant nofun
    (fun _ _ _ ih => ih) (fun _ _ _ _ ih _ => ih) ?_ hr
  rintro st i ch t r ⟨-, -, -, -, hstep⟩ ih
  exact Thread.step_countersFit hstep ih

/-! ### What is submitted -/

/-- `msg` is what `Submit` makes of the call `c`. -/
structure Service.Submits (m : Service P) (c : SubmitCall) (msg : ControllerMessage) : Prop where
  parcel : m.prepare c = .ok ⟨msg.Typ, msg.Data⟩
  source : msg.From = m.localID
  destination : msg.To = c.destination
  id : ∃ n < 2 ^ 64, msg.ID = messageID m.localID c.destination n

/-- What `Submit` knows of its message at each of its program counters. -/
def SubmitPc.Knows (m : Service P) (c : SubmitCall) : SubmitPc → Prop
  | .gate p | .slot p | .ready p | .bytes p | .reserve p | .number p => m.prepare c = .ok p
  | .enqueue msg => m.Submits c msg
  | .leave r => ∀ msg, r = some msg → m.Submits c msg
  | _ => True

theorem SubmitMoves.knows {c : SubmitCall} {pc : SubmitPc} {r : Result P SubmitPc}
    (h : SubmitMoves m s c ch pc r) (hs : s.CountersFit) (hk : pc.Knows m c) :
    r.pc.Knows m c ∧ ∀ msg, .submitReturned (some msg) ∈ r.events → m.Submits c msg := by
  cases h
  case prepare hp => exact ⟨hp, by simp⟩
  case number hn => exact ⟨⟨hk, rfl, rfl, (nextID_countersFit hs hn).2⟩, by simp⟩
  case enqueue =>
    refine ⟨?_, by simp⟩
    rintro msg' ⟨⟩
    exact hk
  case leave =>
    refine ⟨trivial, fun msg hmsg => hk msg ?_⟩
    simpa [eq_comm] using hmsg
  all_goals refine ⟨by first | exact hk | trivial | rintro _ ⟨⟩, by simp [Result.crash]⟩

/-- **What a message is for which `Submit` returned true**: the frame of its payload, the label of
its type, sender and destination, and an ID that is issued from a `uint64`. -/
theorem submits {st : State P} (hr : m.Reaches st) {i : ℕ} {t : Thread P}
    (hi : st.threads[i]? = some t) :
      ∀ c pc, t.proc = .submit c pc → pc.Knows m c ∧
        ∀ msg, .submitReturned (some msg) ∈ st.eventsOf i → m.Submits c msg := by
  refine log_invariant_of (J := Shared.CountersFit) (L := fun p evs => ∀ c pc, p = .submit c pc →
    pc.Knows m c ∧ ∀ msg, .submitReturned (some msg) ∈ evs → m.Submits c msg)
    (fun st => countersFit) ?_ ?_ ?_ hr hi
  · intro call c pc hp
    cases call <;> cases hp
    exact ⟨trivial, nofun⟩
  · intro p hmem c pc hp
    subst hp
    simp at hmem
  · intro s t ch r evs hs h hl c pc hp
    cases Thread.stepped h with
    | submit hr =>
      cases hp
      obtain ⟨hk, hold⟩ := hl _ _ rfl
      obtain ⟨hk', hnew⟩ := hr.knows hs hk
      exact ⟨hk', fun msg hmsg => (mem_append.mp hmsg).elim (hold msg) (hnew msg)⟩
    | fatal hx =>
      obtain ⟨hk, hold⟩ := hl c pc hp
      refine ⟨hk, fun msg hmsg => (mem_append.mp hmsg).elim (hold msg) fun hmem => ?_⟩
      cases hx <;> simp at hmem
    | _ => cases hp

/-! ### No check refuses it -/

/-- The service was built on this Switch, with the native Reactors behind the selected channels. -/
structure Service.Wired (m : Service P) (sw : SwitchChannels P) : Prop where
  native : sw.Native
  frozen : sw.freezeNativeRoutes selectedControllerRoutes = .ok m.registry

theorem Service.Wired.route {sw : SwitchChannels P} (h : m.Wired sw) {channelID : UInt8}
    (hc : selectedRoute channelID = true) : sw.Frozen m.registry channelID :=
  SwitchChannels.freezeNativeRoutes_spec h.frozen channelID (by simpa [selectedRoute] using hc)

theorem Service.Wired.receiveCapacity {sw : SwitchChannels P} (h : m.Wired sw) {channelID : UInt8}
    (hc : selectedRoute channelID = true) :
    m.registry.receiveCapacity channelID = some (sw.capacity channelID).toNat := by
  obtain ⟨prototype, -, -, hroute⟩ := h.route hc
  rw [NativeRouteRegistry.receiveCapacity, hroute]
  rfl

/-- What `prepare` has checked. -/
theorem Service.prepare_ok {c : SubmitCall} {p : Parcel} (h : m.prepare c = .ok p) :
    selectedMessageBinding c.type = some (p.label, c.channelID) ∧
    encodeAdapterPayload c.channelID c.wrapped = .ok p.payload ∧
    ∃ capacity, m.registry.receiveCapacity c.channelID = some capacity ∧
      c.wrapped.length ≤ capacity := by
  unfold prepare at h
  repeat' split at h
  all_goals cases h
  rename_i label route hbind hroute _ capacity hcap hlen _ payload hpayload
  rw [not_not] at hroute
  subst hroute
  exact ⟨hbind, hpayload, capacity, hcap, not_lt.mp hlen⟩

/-- The labels are short words of letters and digits. -/
theorem label_plain {t : MsgType} {label : Bytes} {route : UInt8}
    (h : selectedMessageBinding t = some (label, route)) :
    label ≠ [] ∧ label.all isPlain = true ∧ label.length ≤ 20 := by
  cases t <;> simp only [selectedMessageBinding, Option.some.injEq, Prod.mk.injEq,
    reduceCtorEq] at h <;> obtain ⟨rfl, -⟩ := h <;> decide

theorem isPlain_of_isHex {b : UInt8} (h : isHex b = true) : isPlain b = true := by
  simp only [isHex, isDigit, isPlain, Bool.or_eq_true, Bool.and_eq_true, decide_eq_true_eq,
    UInt8.le_iff_toNat_le, UInt8.reduceToNat] at h ⊢
  omega

theorem isPlain_of_isDigit {b : UInt8} (h : isDigit b = true) : isPlain b = true :=
  isPlain_of_isHex (by simp [isHex, h])

theorem all_isPlain_of_validateControllerID {id : ID} (h : validateControllerID id = true) :
    id.length = 40 ∧ id.all isPlain = true := by
  simp only [validateControllerID, Bool.and_eq_true, beq_iff_eq, all_eq_true] at h ⊢
  exact ⟨h.1, fun b hb => isPlain_of_isHex (h.2 b hb)⟩

theorem messageID_plain {a b : ID} {n : ℕ} (ha : validateControllerID a = true)
    (hb : validateControllerID b = true) (hn : n < 2 ^ 64) :
    (messageID a b n).all isPlain = true ∧ (messageID a b n).length ≤ 102 := by
  obtain ⟨hal, hap⟩ := all_isPlain_of_validateControllerID ha
  obtain ⟨hbl, hbp⟩ := all_isPlain_of_validateControllerID hb
  have hsep : (ascii "_").all isPlain = true ∧ (ascii "_").length = 1 := by decide
  have hdigits : (decimal n).all isPlain = true := by
    have := decimal_all_isDigit n
    rw [all_eq_true] at this ⊢
    exact fun b hb => isPlain_of_isDigit (this b hb)
  have hlen := decimal_length_le hn
  refine ⟨by simp [messageID, hap, hbp, hsep.1, hdigits], ?_⟩
  simp only [messageID, length_append, hal, hbl, hsep.2]
  omega

section Receiver

variable {A B : Service P} {swA swB : SwitchChannels P} {c : SubmitCall} {msg : ControllerMessage}

section

variable (hs : A.Submits c msg) (hA : A.Wired swA) (hidA : validateControllerID A.localID = true)

include hs hA hidA

/-- The body fits the limit that a valid configuration sets, whatever the size of the payload. -/
theorem marshalMessage_fits (hdest : validateControllerID c.destination = true) :
    (marshalMessage msg).length ≤ minBodyBytes := by
  obtain ⟨hbind, hpayload, capacity, hcap, hlen⟩ := prepare_ok hs.parcel
  obtain ⟨n, hn, hid⟩ := hs.id
  have hroute := selectedRoute_of_binding hbind
  obtain ⟨-, hlabel, hlabelLen⟩ : _ ∧ msg.Typ.all isPlain = true ∧ msg.Typ.length ≤ 20 :=
    label_plain hbind
  obtain ⟨hfromLen, hfrom⟩ := all_isPlain_of_validateControllerID hidA
  obtain ⟨htoLen, hto⟩ := all_isPlain_of_validateControllerID hdest
  obtain ⟨hidPlain, hidLen⟩ := messageID_plain hidA hdest hn
  rw [← hs.source] at hfrom hfromLen
  rw [← hs.destination] at hto htoLen
  rw [← hid] at hidPlain hidLen
  have hdata : msg.Data.length ≤ minPayloadBytes := by
    rw [hA.receiveCapacity hroute, Option.some.injEq] at hcap
    have hmax := hA.native.capacity_le hroute
    have hframe := encodeAdapterPayload_length hpayload
    simp only [minPayloadBytes, controllerAdapterOverhead,
      controllerAdapterHeader] at hframe ⊢
    omega
  have henc := encodedLen_mono hdata
  rw [marshalMessage_length hfrom hto hlabel hidPlain, minBodyBytes,
    controllerJSONOverhead]
  omega

/-- **No size, identity or format check refuses it.** -/
theorem checkOuter_submitted (hidB : validateControllerID B.localID = true)
    (hdest : c.destination = B.localID)
    (hlimit : minBodyBytes ≤ B.limits.callbackMaxBodyBytes)
    (hdecode : B.decodeControllerMessage (marshalMessage msg) = some msg) :
    B.checkOuter (callbackRequest (marshalMessage msg)) = .ok msg := by
  have hlabel := (label_plain (prepare_ok hs.parcel).1).1
  have hlen := marshalMessage_fits hs hA hidA (hdest ▸ hidB)
  have hto : msg.To = B.localID := hs.destination.trans hdest
  obtain ⟨n, hn, hid⟩ := hs.id
  have hvalid : validateControllerMessageID msg = true := by
    refine validateControllerMessageID_messageID hn ?_ ?_ (by rw [hid, hs.source, hs.destination])
    · rw [hs.source, (all_isPlain_of_validateControllerID hidA).1]
    · rw [hto, (all_isPlain_of_validateControllerID hidB).1]
  rw [checkOuter, callbackRequest, if_neg (not_lt.mpr (hlen.trans hlimit))]
  simp [hdecode, hto, hs.source, hidA, hvalid, hlabel]

end

/-- **No adapter, route, capacity or type check refuses it.** -/
theorem checkPayload_submitted (hs : A.Submits c msg) (hA : A.Wired swA) (hB : B.Wired swB)
    {message : P} (hproto : ∀ prototype, swB.msgTypeByChID c.channelID = some prototype →
      prototype c.wrapped = some message)
    (htype : B.native.typeOf message = c.type)
    (hvalid : B.native.validateSelectedMessage message = .ok true) :
    B.checkPayload msg = .ok ⟨msg, c.channelID, c.wrapped, c.wrapped.length⟩ := by
  obtain ⟨hbind, hpayload, capacity, hcap, hlen⟩ := prepare_ok hs.parcel
  have hroute := selectedRoute_of_binding hbind
  obtain ⟨prototype, hpt, -, hentry⟩ := hB.route hroute
  have hdecode : B.registry.decode c.channelID c.wrapped = some message := by
    rw [NativeRouteRegistry.decode, hentry]
    exact hproto prototype hpt
  -- both ends read the capacity off the same native descriptor
  have hfits : ¬ c.wrapped.length > (swB.capacity c.channelID).toNat := by
    rw [hA.receiveCapacity hroute, Option.some.injEq, hA.native.capacity_eq hB.native hroute] at hcap
    omega
  rw [checkPayload, decodeAdapterPayload_encode hpayload]
  simp only [hB.receiveCapacity hroute, hroute, hdecode, htype, hbind, hvalid, if_neg hfits,
    Bool.not_true, Bool.false_eq_true, if_false, ne_eq, not_true_eq_false]

/-! ### Pass-through -/

/-- **Pass-through equivalence.** Let node `A` have returned true from `Submit`, and let node `B`, to
which the message is addressed, be ready and have room for it. If the body that `A` posts for it is
delivered to the callback of `B`, then the handler answers `202`, and if the worker is idle, it then
dispatches; and whenever `B` hands this message to a Reactor, then with the channel, the source and
the decoded message that the ordinary receive path would have taken from the same bytes. -/
theorem pass_through {cfg : ControllerMediationConfig} {splitHostPort : Bytes → Bool}
    {json : JSONCodec} {stA stB : State P} {i : ℕ} {t : Thread P} {pc : SubmitPc} {message : P}
    -- `A` has accepted the message
    (hA : A.Reaches stA) (hi : stA.threads[i]? = some t) (hcall : t.proc = .submit c pc)
    (hret : (i, .submitReturned (some msg)) ∈ stA.trace)
    -- both run the native Reactors, under identities of forty hexadecimal characters
    (hwA : A.Wired swA) (hwB : B.Wired swB)
    (hidA : validateControllerID A.localID = true) (hidB : validateControllerID B.localID = true)
    (hdest : c.destination = B.localID)
    -- the configuration of `B` is valid
    (henabled : cfg.enabled = true) (hcfg : cfg.validateBasic splitHostPort = [])
    (hlimits : B.limits = cfg.limits)
    -- the codecs read back what they wrote, and the message is valid
    (hjson : B.decodeControllerMessage = json.decodeControllerMessage)
    (htrip : json.RoundTrips msg)
    (hproto : ∀ prototype, swB.msgTypeByChID c.channelID = some prototype →
      prototype c.wrapped = some message)
    (htype : B.native.typeOf message = c.type)
    (hvalid : B.native.validateSelectedMessage message = .ok true)
    -- `B` is ready, has room, and `A` is a running peer of it
    (hB : B.Reaches stB) (hadmits : stB.shared.Admits B A.localID c.wrapped.length) :
    let item : ReinjectionItem := ⟨msg, c.channelID, c.wrapped, c.wrapped.length⟩
    let k := stB.threads.length
    swB.onReceive false A.localID c.channelID c.wrapped =
      .envelope c.channelID A.localID message ∧
    B.checkOuter (callbackRequest (marshalMessage msg)) = .ok msg ∧
    B.checkPayload msg = .ok item ∧
    (∃ st', exec (next B) stB (.call (.serveMessage (callbackRequest (marshalMessage msg))) ::
          replicate 12 (.run k .go)) = some st' ∧
      st'.trace = stB.trace ++ [(k, .callbackEnqueued item), (k, .callbackReturned item true),
        (k, .responded .accepted)] ∧
      ∀ (j : ℕ) peer, stB.threads[j]? = some ⟨none, .reinjection .recv⟩ →
        stB.shared.callbackQueue.buf = [] → stB.shared.peers A.localID = some peer →
        ∃ st'', exec (next B) st' (replicate 5 (.run j .go)) = some st'' ∧
          st''.trace = st'.trace ++ [(j, .callbackTaken item), (j, .received item peer message)]) ∧
    ∀ st, B.Reaches st → ∀ j x src received, (j, .received x src received) ∈ st.trace →
      x.message = msg →
      x.channelID = c.channelID ∧ x.message.From = A.localID ∧ received = message ∧
        ∃ w, Reachable (next B) w st ∧ w.Found B j x src := by
  have hs : A.Submits c msg :=
    (submits hA hi c pc hcall).2 msg (State.mem_eventsOf.mpr hret)
  obtain ⟨hbind, hpayload, -⟩ := prepare_ok hs.parcel
  have hroute := selectedRoute_of_binding hbind
  obtain ⟨prototype, hpt, hreactor, hentry⟩ := hwB.route hroute
  obtain ⟨-, -, hlimit⟩ := limits_of_validateBasic henabled hcfg
  have houter := checkOuter_submitted hs hwA hidA hidB hdest (hlimits ▸ hlimit)
    (by rw [hjson, JSONCodec.decodeControllerMessage_marshal htrip])
  have hitem := checkPayload_submitted hs hwA hwB hproto htype hvalid
  intro item k
  refine ⟨?_, houter, hitem, ?_, ?_⟩
  · simp [SwitchChannels.onReceive, hreactor, hpt, hproto prototype hpt]
  · have hexec := serveMessage_alone hB (hs.source ▸ hadmits) houter hitem
    refine ⟨_, hexec, rfl, fun j peer hj hbuf hpeer => ?_⟩
    have hjlt : j < stB.threads.length := (List.getElem?_eq_some_iff.mp hj).1
    obtain ⟨peer', hpeer', hrunning⟩ := hadmits.connected
    obtain rfl : peer' = peer := Option.some.inj (hpeer'.symm.trans hpeer)
    have hlive := not_crashed hB
    refine reinjectionWorker_alone ?_ ?_ ?_ ?_ ?_ hrunning hentry (hproto prototype hpt) rfl
    · exact hlive
    · rw [getElem?_append_left hjlt]
      exact hj
    · show stB.shared.callbackQueue.buf ++ [item] = [item]
      rw [hbuf, nil_append]
    · exact Nat.succ_pos _
    · show stB.shared.peers msg.From = some peer'
      rw [hs.source, hpeer]
  · rintro st hst j x src received hrec rfl
    -- the frame of the message determines channel and bytes
    have hsent : x ∈ st.obs Event.callbackSent :=
      (received_isPart hst).subset (mem_filterMap.mpr ⟨_, hrec, rfl⟩)
    obtain ⟨version, hframe⟩ := (admissible_of_sent hst hsent).frame
    rw [decodeAdapterPayload_encode hpayload] at hframe
    obtain ⟨-, hchannel, hwrapped⟩ : controllerAdapterVersion = version ∧
        c.channelID = x.channelID ∧ c.wrapped = x.wrapped := by simpa using hframe
    obtain ⟨w, ⟨⟨v, hfound, hvw, -⟩, route, hr, hdec, -⟩, hw, -⟩ :=
      attributed hst j x src received hrec
    refine ⟨hchannel.symm, hs.source, ?_, w, hw, hfound.mono hvw⟩
    rw [← hchannel, hentry, Option.some.injEq] at hr
    subst hr
    rw [← hwrapped] at hdec
    exact Option.some.inj (hdec.symm.trans (hproto prototype hpt))

end Receiver

/-! ### A run

`samplePeer` submits a precommit to `sampleID`. Both have the default configuration, except that there
is room for one callback only. -/

open Cmtcons (Body decodeNativeMessage)
open Consensus (nilPrecommit noOthers)

def voteMessage : ControllerMessage :=
  ⟨samplePeer, sampleID, 1 :: voteChannel :: putUint32 nilPrecommit.length ++ nilPrecommit,
    ascii "Vote", messageID samplePeer sampleID 0⟩

def voteCodec : JSONCodec where
  decode := fun body =>
    if body = marshalMessage voteMessage then some (messageFields voteMessage) else none
  unmarshal := fun _ => some voteMessage

def oneSlotConfig : ControllerMediationConfig :=
  { defaultControllerMediationConfig with
    enabled := true
    controllerAddress := ascii "localhost:8080"
    callbackListenAddress := ascii "localhost:8081"
    callbackAdvertiseAddress := ascii "localhost:8081"
    callbackQueueCapacity := 1 }

/-- The messages of state sync aside. -/
def nativeSwitch : SwitchChannels (Body ⊕ Empty) where
  chDescs := nativeDescriptors
  msgTypeByChID := fun _ => some fun wire => (decodeNativeMessage wire).map .inl
  reactorsByCh := fun _ => true

def nativeRegistry : NativeRouteRegistry (Body ⊕ Empty) :=
  match nativeSwitch.freezeNativeRoutes selectedControllerRoutes with
  | .ok routes => routes
  | .error _ => fun _ => none

def nativeService (localID : ID) : Service (Body ⊕ Empty) where
  limits := oneSlotConfig.limits
  localID := localID
  registry := nativeRegistry
  native := Consensus.native noOthers
  decodeControllerMessage := voteCodec.decodeControllerMessage
  limitFirst := fun _ => true

theorem nativeService_wired (localID : ID) : (nativeService localID).Wired nativeSwitch :=
  ⟨by unfold SwitchChannels.Native; decide, rfl⟩

def voteCall : SubmitCall := ⟨sampleID, voteChannel, .vote, nilPrecommit, .blocking⟩

/-- The sender, with the vote submitted. -/
def voteSent : State (Body ⊕ Empty) :=
  (nativeService samplePeer).after
    (startRun ++ .call (.submit voteCall) :: replicate 9 (go 4))

/-- The receiver, with the sender connected. -/
def connectRun : List Action := startRun ++ [.world (.peerAdd samplePeer)]

theorem pass_through_sample :
    let stB := (nativeService sampleID).after connectRun
    (oneSlotConfig.validateBasic (fun _ => true) = [] ∧ voteCodec.RoundTrips voteMessage ∧
      voteSent.obs Event.submitted = [voteMessage] ∧
      stB.shared.Admits (nativeService sampleID) samplePeer nilPrecommit.length) ∧
    (nativeService sampleID).checkOuter (callbackRequest (marshalMessage voteMessage)) =
      .ok voteMessage := by
  have hadmits : ((nativeService sampleID).after connectRun).shared.Admits (nativeService sampleID)
      samplePeer nilPrecommit.length := ⟨by decide, by decide, by decide, by decide, 0, by decide, by decide⟩
  have hvalid : oneSlotConfig.validateBasic (fun _ => true) = [] := by decide
  have htrip : voteCodec.RoundTrips voteMessage := ⟨by simp [voteCodec], rfl⟩
  have hA : (nativeService samplePeer).Reaches voteSent :=
    (nativeService samplePeer).reaches_after (by decide)
  have hB : (nativeService sampleID).Reaches ((nativeService sampleID).after connectRun) :=
    (nativeService sampleID).reaches_after (by decide)
  have hret : (4, Event.submitReturned (some voteMessage)) ∈ voteSent.trace :=
    mem_of_getElem? (i := 4) rfl
  refine ⟨⟨hvalid, htrip, by decide, hadmits⟩, ?_⟩
  obtain ⟨p, hp⟩ : ∃ p, decodeNativeMessage nilPrecommit = some p :=
    Option.isSome_iff_exists.mp (by decide +kernel)
  have htype : ∀ p ∈ decodeNativeMessage nilPrecommit,
      (nativeService sampleID).native.typeOf (.inl p) = .vote := by decide +kernel
  have hmsg : ∀ p ∈ decodeNativeMessage nilPrecommit,
      (nativeService sampleID).native.validateSelectedMessage (.inl p) = .ok true := by
    decide +kernel
  exact (pass_through (c := voteCall) (t := ⟨none, .submit voteCall .done⟩) hA rfl rfl hret
    (nativeService_wired _) (nativeService_wired _) (by decide) (by decide) rfl rfl hvalid rfl rfl
    htrip (by rintro _ ⟨⟩; exact congrArg (Option.map Sum.inl) hp) (htype p hp) (hmsg p hp) hB
    hadmits).2.1

/-- One callback has been accepted and taken from the queue; the worker has not yet given its slot
back. -/
def takenRun : List Action :=
  connectRun ++ .call (.serveMessage (callbackRequest (marshalMessage voteMessage))) ::
    replicate 12 (go 4) ++ [go 2]

/-- An empty queue is not enough: while the worker still holds the slot of the item that it has just
taken, a second callback is refused, and the refusal is fatal. -/
theorem refused_with_empty_queue :
    let B := nativeService sampleID
    let st := B.after takenRun
    let st' := B.after (takenRun ++
      .call (.serveMessage (callbackRequest (marshalMessage voteMessage))) ::
        replicate 13 (go 5))
    ((exec (next B) init takenRun).isSome = true ∧ voteSent.obs Event.submitted = [voteMessage] ∧
      st.shared.isReady = true ∧ st.shared.callbackQueue.buf = [] ∧
      st.shared.callbackMu = false ∧ st.shared.peers samplePeer = some 0 ∧
      st.shared.running 0 = true) ∧
    st'.obs Event.verdict = [none, some .accepted, some (.rejected .admissionFatal)] ∧
    st'.shared.fatalErr = some (controlChannelFailure .admission) := by
  decide +kernel

end CometBFT.Mediation
