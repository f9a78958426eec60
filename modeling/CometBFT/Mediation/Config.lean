import CometBFT.Lib.Cache
import CometBFT.Mediation.Wire

/-!
# Configuration and native routes

What a mediation service is built from: the section of the configuration that `ValidateBasic` lets
pass, and the channel tables of the Switch, of which `FreezeNativeRoutes` copies the selected part.
The ordinary receive path reads the same tables, so for a selected channel both decode with the same
prototype.

## Main results

* `validateBasic_default` — the default limits pass, whatever is wrong with the addresses
* `limits_of_validateBasic` — what holds of a configuration that passes
* `freezeNativeRoutes_spec` — what a frozen registry holds
-/

namespace CometBFT.Mediation

/-! ### `ControllerMediationConfig` -/

def controllerMaxNativePayload : ℕ := 16000000
def controllerAdapterOverhead : ℕ := 6
def controllerJSONOverhead : ℕ := 512

/-- `ControllerMediationConfig`. Durations are in nanoseconds. -/
structure ControllerMediationConfig where
  enabled : Bool := false
  controllerAddress : Bytes := []
  callbackListenAddress : Bytes := []
  callbackAdvertiseAddress : Bytes := []
  nodeID : ℤ := 0
  outboundQueueCapacity : ℤ
  outboundQueueBytes : ℤ
  callbackQueueCapacity : ℤ
  callbackQueueBytes : ℤ
  callbackMaxBodyBytes : ℤ
  counterRegistryCapacity : ℤ
  registrationAttempts : ℤ
  registrationRetryDelay : ℤ
  requestTimeout : ℤ
  sendTimeout : ℤ
  shutdownTimeout : ℤ
  deriving DecidableEq, Repr

/-- `DefaultControllerMediationConfig`. -/
def defaultControllerMediationConfig : ControllerMediationConfig where
  outboundQueueCapacity := 1024
  outboundQueueBytes := 67108864
  callbackQueueCapacity := 256
  callbackQueueBytes := 67108864
  callbackMaxBodyBytes := 22000000
  counterRegistryCapacity := 65536
  registrationAttempts := 5
  registrationRetryDelay := 250 * 10 ^ 6
  requestTimeout := 3 * 10 ^ 9
  sendTimeout := 10 * 10 ^ 9
  shutdownTimeout := 10 * 10 ^ 9

/-- The settings that the errors of `ValidateBasic` name. -/
inductive Setting where
  | controllerAddress | callbackListenAddress | callbackAdvertiseAddress
  | nodeID | outboundQueueCapacity | callbackQueueCapacity | counterRegistryCapacity
  | registrationAttempts | outboundQueueBytes | callbackQueueBytes | callbackMaxBodyBytes
  | registrationRetryDelay | requestTimeout | sendTimeout | shutdownTimeout
  deriving DecidableEq, Repr

inductive ConfigError where
  /-- is required when enabled -/
  | required (s : Setting)
  /-- `net.SplitHostPort` failed -/
  | invalid (s : Setting)
  | mustBeNonNegative (s : Setting)
  | mustBePositive (s : Setting)
  | mustBeAtLeast (s : Setting) (n : ℕ)
  /-- must not exceed so many seconds -/
  | mustNotExceed (s : Setting) (seconds : ℕ)
  deriving DecidableEq, Repr

/-- The first check that fails. -/
def firstFailure : List (List ConfigError) → List ConfigError
  | [] => []
  | [] :: rest => firstFailure rest
  | (e :: es) :: _ => e :: es

theorem firstFailure_eq_nil {checks : List (List ConfigError)} :
    firstFailure checks = [] ↔ ∀ c ∈ checks, c = [] := by
  induction checks with
  | nil => simp [firstFailure]
  | cons c cs ih =>
    cases c with
    | nil => simp [firstFailure, ih]
    | cons e es => simp [firstFailure]

def checkPositive (s : Setting) (value : ℤ) : List ConfigError :=
  if value ≤ 0 then [.mustBePositive s] else []

def checkAtLeast (s : Setting) (value : ℤ) (min : ℕ) : List ConfigError :=
  if value < min then [.mustBeAtLeast s min] else []

namespace ControllerMediationConfig

def minPayloadBytes : ℕ := controllerAdapterOverhead + controllerMaxNativePayload

def minBodyBytes : ℕ := encodedLen minPayloadBytes + controllerJSONOverhead

def checkAddress (splitHostPort : Bytes → Bool) (s : Setting) (address : Bytes) :
    List ConfigError :=
  if address = [] then [.required s] else if splitHostPort address then [] else [.invalid s]

/-- `ValidateBasic`: no error if the list is empty, otherwise one of those in the list, which one
being up to the order in which Go walks a map. -/
def validateBasic (splitHostPort : Bytes → Bool) (cfg : ControllerMediationConfig) :
    List ConfigError :=
  if !cfg.enabled then []
  else firstFailure
    [checkAddress splitHostPort .controllerAddress cfg.controllerAddress ++
      checkAddress splitHostPort .callbackListenAddress cfg.callbackListenAddress ++
      checkAddress splitHostPort .callbackAdvertiseAddress cfg.callbackAdvertiseAddress,
    if cfg.nodeID < 0 then [.mustBeNonNegative .nodeID] else [],
    checkPositive .outboundQueueCapacity cfg.outboundQueueCapacity ++
      checkPositive .callbackQueueCapacity cfg.callbackQueueCapacity ++
      checkPositive .counterRegistryCapacity cfg.counterRegistryCapacity ++
      checkPositive .registrationAttempts cfg.registrationAttempts,
    checkAtLeast .outboundQueueBytes cfg.outboundQueueBytes minPayloadBytes,
    checkAtLeast .callbackQueueBytes cfg.callbackQueueBytes minPayloadBytes,
    checkAtLeast .callbackMaxBodyBytes cfg.callbackMaxBodyBytes minBodyBytes,
    checkPositive .registrationRetryDelay cfg.registrationRetryDelay ++
      checkPositive .requestTimeout cfg.requestTimeout ++
      checkPositive .sendTimeout cfg.sendTimeout ++
      checkPositive .shutdownTimeout cfg.shutdownTimeout,
    if cfg.registrationRetryDelay > 2 * 10 ^ 9 then [.mustNotExceed .registrationRetryDelay 2]
      else [],
    if cfg.sendTimeout > 10 * 10 ^ 9 then [.mustNotExceed .sendTimeout 10] else []]

/-- **The default limits pass**: only the addresses can be wrong. -/
theorem validateBasic_default (splitHostPort : Bytes → Bool) (controller listen advertise : Bytes)
    (nodeID : ℕ) : { defaultControllerMediationConfig with
      enabled := true
      controllerAddress := controller
      callbackListenAddress := listen
      callbackAdvertiseAddress := advertise
      nodeID := nodeID }.validateBasic splitHostPort =
    checkAddress splitHostPort .controllerAddress controller ++
      checkAddress splitHostPort .callbackListenAddress listen ++
      checkAddress splitHostPort .callbackAdvertiseAddress advertise := by
  have hrest : ∀ errors, firstFailure [errors, [], [], [], [], [], [], [], []] = errors := by
    intro errors
    cases errors with
    | nil => rfl
    | cons e es => rfl
  unfold validateBasic
  rw [if_neg (by simp), if_neg (not_lt.mpr (Int.natCast_nonneg nodeID))]
  exact hrest _

/-- The limits that the service reads. -/
def limits (cfg : ControllerMediationConfig) : Limits where
  outboundQueueCapacity := cfg.outboundQueueCapacity.toNat
  outboundQueueBytes := cfg.outboundQueueBytes.toNat
  callbackQueueCapacity := cfg.callbackQueueCapacity.toNat
  callbackQueueBytes := cfg.callbackQueueBytes.toNat
  callbackMaxBodyBytes := cfg.callbackMaxBodyBytes.toNat
  counterRegistryCapacity := cfg.counterRegistryCapacity.toNat
  registrationAttempts := cfg.registrationAttempts.toNat

/-- **What holds of a configuration that passes**: a payload of the largest native size fits the
queues, and its message fits the body limit. -/
theorem limits_of_validateBasic {splitHostPort : Bytes → Bool} {cfg : ControllerMediationConfig}
    (henabled : cfg.enabled = true) (h : cfg.validateBasic splitHostPort = []) :
    0 < cfg.limits.callbackQueueCapacity ∧ minPayloadBytes ≤ cfg.limits.callbackQueueBytes ∧
      minBodyBytes ≤ cfg.limits.callbackMaxBodyBytes := by
  rw [validateBasic, henabled, if_neg (by simp), firstFailure_eq_nil] at h
  simp only [List.forall_mem_cons, List.append_eq_nil_iff, checkPositive, checkAtLeast,
    ite_eq_right_iff, reduceCtorEq, imp_false] at h
  obtain ⟨-, -, ⟨⟨⟨-, hcap⟩, -⟩, -⟩, -, hbytes, hbody, -⟩ := h
  refine ⟨?_, ?_, ?_⟩ <;> simp only [limits] <;> omega

end ControllerMediationConfig

/-! ### Channel tables -/

/-- The part of `ChannelDescriptor` that mediation reads. -/
structure ChannelDescriptor where
  ID : UInt8
  recvMessageCapacity : ℤ
  deriving DecidableEq, Repr

def defaultRecvMessageCapacity : ℤ := 22020096

/-- `FillDefaults`. -/
def ChannelDescriptor.fillDefaults (d : ChannelDescriptor) : ChannelDescriptor :=
  if d.recvMessageCapacity = 0 then { d with recvMessageCapacity := defaultRecvMessageCapacity }
  else d

variable {P : Type*}

/-- The channel tables of the Switch. A prototype stands for the codec that it selects: clone,
`proto.Unmarshal`, unwrap. -/
structure SwitchChannels (P : Type*) where
  chDescs : List ChannelDescriptor
  msgTypeByChID : UInt8 → Option (Bytes → Option P)
  /-- `reactorsByCh[id] != nil` -/
  reactorsByCh : UInt8 → Bool

variable {sw : SwitchChannels P} {channelID : UInt8}

namespace SwitchChannels

inductive FreezeError where
  | duplicate (channelID : UInt8)
  | incomplete (channelID : UInt8)
  | noReceiveCapacity (channelID : UInt8)
  deriving DecidableEq, Repr

/-- The capacity of the first descriptor of a channel. -/
def capacity (sw : SwitchChannels P) (channelID : UInt8) : ℤ :=
  ((sw.chDescs.find? (·.ID == channelID)).map fun d => d.fillDefaults.recvMessageCapacity).getD 0

/-- One round of the loop of `FreezeNativeRoutes`. -/
def freezeRoute (sw : SwitchChannels P) (routes : NativeRouteRegistry P) (channelID : UInt8) :
    Except FreezeError (NativeRouteRegistry P) :=
  if (routes channelID).isSome then .error (.duplicate channelID)
  else match sw.msgTypeByChID channelID with
    | none => .error (.incomplete channelID)
    | some prototype =>
      if !sw.reactorsByCh channelID then .error (.incomplete channelID)
      else if sw.capacity channelID ≤ 0 then .error (.noReceiveCapacity channelID)
      else .ok (Function.update routes channelID
        (some ⟨(sw.capacity channelID).toNat, prototype, true⟩))

/-- `FreezeNativeRoutes`. -/
def freezeNativeRoutes (sw : SwitchChannels P) (selected : List UInt8) :
    Except FreezeError (NativeRouteRegistry P) :=
  selected.foldlM sw.freezeRoute fun _ => none

/-- The route that a frozen registry holds for a channel. -/
def Frozen (sw : SwitchChannels P) (routes : NativeRouteRegistry P) (channelID : UInt8) : Prop :=
  ∃ prototype, sw.msgTypeByChID channelID = some prototype ∧ sw.reactorsByCh channelID = true ∧
    routes channelID = some ⟨(sw.capacity channelID).toNat, prototype, true⟩

variable {routes : NativeRouteRegistry P}

theorem freezeRoute_ok {routes' : NativeRouteRegistry P}
    (h : sw.freezeRoute routes channelID = .ok routes') :
    sw.Frozen routes' channelID ∧ ∀ c, sw.Frozen routes c → sw.Frozen routes' c := by
  unfold freezeRoute at h
  repeat' split at h
  all_goals cases h
  rename_i hnone _ prototype hproto hreactor hcapacity
  refine ⟨⟨prototype, hproto, by simpa using hreactor, Function.update_self ..⟩, ?_⟩
  rintro c ⟨proto', hp, hr, hc⟩
  -- a channel that is already there is not frozen twice
  exact ⟨proto', hp, hr, update_of_none (Option.not_isSome_iff_eq_none.mp hnone) hc _⟩

/-- **What a frozen registry holds**: for each selected channel the prototype of the Switch, a
Reactor, and the receive capacity of its descriptor. -/
theorem freezeNativeRoutes_spec {selected : List UInt8}
    (h : sw.freezeNativeRoutes selected = .ok routes) :
    ∀ c ∈ selected, sw.Frozen routes c := by
  intro c hc
  obtain ⟨before, after, rfl⟩ := List.append_of_mem hc
  obtain ⟨r₀, h⟩ : ∃ r₀ : NativeRouteRegistry P,
      (before ++ c :: after).foldlM sw.freezeRoute r₀ = .ok routes := ⟨_, h⟩
  rw [List.foldlM_append] at h
  obtain ⟨r₁, -, h⟩ := ok_of_bind h
  rw [List.foldlM_cons] at h
  obtain ⟨r₂, hr₂, h⟩ := ok_of_bind h
  exact of_foldlM (P := (sw.Frozen · c)) (freezeRoute_ok hr₂).1
    (fun _ _ _ _ hold ha => (freezeRoute_ok ha).2 c hold) h

end SwitchChannels

/-! ### Native descriptors -/

/-- `maxMsgSize` of the consensus Reactor, `snapshotMsgSize` and `chunkMsgSize` of state sync. -/
def maxMsgSize : ℤ := 1048576
def snapshotMsgSize : ℤ := 4000000
def chunkMsgSize : ℤ := 16000000

/-- The channels of the consensus and the state sync Reactors. -/
def nativeDescriptors : List ChannelDescriptor :=
  [⟨stateChannel, maxMsgSize⟩, ⟨dataChannel, maxMsgSize⟩, ⟨voteChannel, maxMsgSize⟩,
    ⟨voteSetBitsChannel, maxMsgSize⟩, ⟨snapshotChannel, snapshotMsgSize⟩,
    ⟨chunkChannel, chunkMsgSize⟩]

/-- The selected channels are described as the native Reactors describe them. -/
def SwitchChannels.Native (sw : SwitchChannels P) : Prop :=
  ∀ d ∈ nativeDescriptors, sw.chDescs.find? (·.ID == d.ID) = some d

/-- Every selected route has its native descriptor. -/
theorem exists_nativeDescriptor (h : selectedRoute channelID = true) :
    ∃ d ∈ nativeDescriptors, d.ID = channelID := by
  have hids : nativeDescriptors.map (·.ID) = selectedControllerRoutes := rfl
  rw [selectedRoute, List.contains_iff_mem, ← hids] at h
  exact List.mem_map.mp h

theorem SwitchChannels.Native.capacity_eq {sw' : SwitchChannels P} (h : sw.Native) (h' : sw'.Native)
    (hc : selectedRoute channelID = true) :
    sw.capacity channelID = sw'.capacity channelID := by
  obtain ⟨d, hd, rfl⟩ := exists_nativeDescriptor hc
  rw [SwitchChannels.capacity, SwitchChannels.capacity, h d hd, h' d hd]

theorem SwitchChannels.Native.capacity_le (h : sw.Native) (hc : selectedRoute channelID = true) :
    (sw.capacity channelID).toNat ≤ controllerMaxNativePayload := by
  have hall : ∀ d ∈ nativeDescriptors,
      d.fillDefaults.recvMessageCapacity.toNat ≤ controllerMaxNativePayload := by decide
  obtain ⟨d, hd, rfl⟩ := exists_nativeDescriptor hc
  rw [SwitchChannels.capacity, h d hd]
  exact hall d hd

/-! ### The ordinary receive path -/

/-- What `onReceive` does with the bytes of a message. -/
inductive Delivery (P : Type*) where
  /-- `DirectInboundRejected` -/
  | rejected
  | unknownChannel
  | undecodable
  /-- an `Envelope` for the Reactor -/
  | envelope (channelID : UInt8) (src : ID) (message : P)

/-- `onReceive` of `createMConnection`, on a connection with or without a sink. -/
def SwitchChannels.onReceive (sw : SwitchChannels P) (mediated : Bool) (src : ID)
    (channelID : UInt8) (msgBytes : Bytes) : Delivery P :=
  if mediated && selectedRoute channelID then .rejected
  else if !sw.reactorsByCh channelID then .unknownChannel
  else match (sw.msgTypeByChID channelID).bind fun prototype => prototype msgBytes with
    | none => .undecodable
    | some msg => .envelope channelID src msg

end CometBFT.Mediation
