import CometBFT.Lib.Chan
import CometBFT.Lib.Goroutines
import CometBFT.Mediation.Message

/-!
# The controller mediation service as a machine

`node/controller_mediation.go` is one record shared by many goroutines: callers of `Submit`, HTTP
handlers running `serveMessage`, the two workers, the goroutine around `server.Serve`, and callers
of `Start` and `Stop`. The state here is that record together with a program counter for every
goroutine, and a step lets one goroutine perform one access to the shared record together with
the local computation that follows it, up to the next access. A section under `stateMu` or
`counterMu` only touches the fields that mutex guards and is one access; `submitGate`,
`callbackMu` and `lifecycleMu` are held across several accesses and are modelled as such.

Whatever the code leaves to the world is a `Choice` of the step: which ready case a `select` takes,
when a timer fires, what the controller answers, and what a Reactor does to the source peer.
Each step also reports the events by which the results about runs are stated.

A send on a closed channel, a second close and unlocking an unlocked mutex take a Go process down;
here they set `crashed`, after which nothing moves.

## Main definitions

* `Shared` — the fields of `controllerMediation`, with the peer set it reads
* `submitStep`, `serveStep`, `submissionStep`, `reinjectionStep`, `lifecycleStep` — the goroutines
* `Thread.step`, `machine` — one step of a goroutine, and the goroutines as one machine
-/

namespace CometBFT.Mediation

open Function

/-- The fields of `controllerMediation` that are fixed at construction. Of `encoding/json` the
model needs what `decodeControllerMessage` makes of a body that fits the limit, and which of its
two errors a longer body meets first. -/
structure Service (P : Type*) where
  limits : Limits
  localID : ID
  registry : NativeRouteRegistry P
  native : Native P
  decodeControllerMessage : Bytes → Option ControllerMessage
  limitFirst : Bytes → Bool

/-! ### Errors -/

inductive PostError where
  | transport
  | http (status : ℕ)
  deriving DecidableEq, Repr

inductive ReinjectionError where
  | disconnected | decode | missingRoute | reactorPanic
  deriving DecidableEq, Repr

/-- The errors that reach `fatal`. -/
inductive FatalCause where
  /-- selected outbound type/route mismatch -/
  | routeMismatch (t : MsgType) (channelID : UInt8)
  /-- selected outbound payload violates route capacity -/
  | capacity (channelID : UInt8)
  | adapter (e : AdapterError)
  /-- counter registry exhausted -/
  | registryExhausted
  /-- message counter exhausted -/
  | counterExhausted
  /-- callback listener terminated -/
  | listenerTerminated
  /-- shutdown accepted-work timeout -/
  | shutdownTimeout
  /-- submit `id`: … -/
  | submit (id : Bytes) (e : PostError)
  /-- valid callback could not enter bounded reinjection queue -/
  | admission
  /-- accepted callback `id` lost: … -/
  | lost (id : Bytes) (e : ReinjectionError)
  /-- an error handed to `LocalInvariant` by a peer -/
  | peer (n : ℕ)
  deriving DecidableEq, Repr

inductive FatalClass where
  | controlChannel | localInvariant
  deriving DecidableEq, Repr

/-- `mediationFatalError`. -/
structure MediationFatalError where
  cls : FatalClass
  err : FatalCause
  deriving DecidableEq, Repr

/-- `LocalInvariant(err)` calls `fatal` with this. -/
def localInvariant (e : FatalCause) : MediationFatalError := ⟨.localInvariant, e⟩

def controlChannelFailure (e : FatalCause) : MediationFatalError := ⟨.controlChannel, e⟩

inductive StartError where
  | alreadyTransitioned | bind | registrationCanceled | registrationExhausted
  | fatal (e : MediationFatalError)
  deriving DecidableEq, Repr

/-- Why `serveMessage` did not answer `202`. -/
inductive Reject where
  | methodNotAllowed | contentType | notReady | oversized | malformed | wrongDestination
  | unknownSource | fieldInvalid | staleSource | adapterInvalid | unknownRoute | nativeOversized
  | decodeRejected | typeMismatch | semanticRejection | shutdownRejected | admissionFatal
  deriving DecidableEq, Repr

/-- The HTTP status of a rejection. -/
def Reject.status : Reject → ℕ
  | .methodNotAllowed => 405
  | .contentType => 415
  | .notReady | .shutdownRejected | .admissionFatal => 503
  | .oversized | .nativeOversized => 413
  | .malformed | .fieldInvalid | .adapterInvalid => 400
  | .wrongDestination | .unknownSource | .unknownRoute | .decodeRejected | .typeMismatch
  | .semanticRejection => 422
  | .staleSource => 409

inductive Response where
  | accepted
  | rejected (r : Reject)
  /-- the handler panicked: `net/http` recovers, and closes the connection without an answer -/
  | aborted
  deriving DecidableEq, Repr

def Response.status : Response → Option ℕ
  | .accepted => some 202
  | .rejected r => some r.status
  | .aborted => none

/-! ### The shared record -/

/-- `controllerLifecycleState`. -/
inductive Lifecycle where
  | new | starting | running | stopping | stopped
  deriving DecidableEq, Repr

/-- The mutable fields of `controllerMediation`. A `chan struct{}` is its number of tokens. The
last fields are what the service reads of the Switch's peer set, the owner's record of a fatal
(`Node.controllerFatal`), and whether a goroutine has panicked. -/
structure Shared where
  outboundQueue : Chan OutboundItem := {}
  outboundSlots : ℕ := 0
  callbackQueue : Chan ReinjectionItem := {}
  callbackSlots : ℕ := 0
  outboundBytes : ℤ := 0
  callbackBytes : ℤ := 0
  submitGate : ℕ := 1
  callbackMu : Bool := false
  /-- `counters`, a Go map -/
  counters : ID → Option ℕ := fun _ => none
  /-- `len(counters)` -/
  counterCount : ℕ := 0
  ready : Bool := false
  everReady : Bool := false
  stopping : Bool := false
  fatalErr : Option MediationFatalError := none
  fatalC : List MediationFatalError := []
  /-- the counter of the wait group -/
  workers : ℕ := 0
  lifecycleMu : Bool := false
  lifecycle : Lifecycle := .new
  /-- `ctx` has been cancelled -/
  cancelled : Bool := false
  /-- the peer object registered under an ID -/
  peers : ID → Option ℕ := fun _ => none
  /-- `IsRunning` of a peer object -/
  running : ℕ → Bool := fun _ => false
  nextPeer : ℕ := 0
  controllerFatal : Option MediationFatalError := none
  crashed : Bool := false

/-- `isReady`. -/
def Shared.isReady (s : Shared) : Bool := s.ready && !s.stopping && s.fatalErr.isNone

/-- The ways in which the world resolves a step. -/
inductive Choice where
  /-- the ordinary case, or a success -/
  | go
  /-- a timer fires -/
  | timer
  /-- `ctx.Done()` is taken -/
  | cancel
  /-- the operation fails -/
  | fail
  /-- the controller answers with this status -/
  | status (code : ℕ)
  /-- the controller redirects the request with this status, to `/message` or elsewhere -/
  | redirect (code : ℕ) (toMessage : Bool)
  /-- the Reactor stops the source peer, removes it, or panics -/
  | stopSource | removeSource | reactorPanic
  deriving DecidableEq, Repr

/-- What a call of `Start` or `Stop` returns. -/
inductive Returned where
  | start (err : Option StartError)
  | stop
  deriving DecidableEq, Repr

/-- What is observed of a run. -/
inductive Event (P : Type*) where
  /-- the goroutine received the token from `submitGate` -/
  | gateTaken
  /-- `nextID` issued an ID -/
  | numbered (id : Bytes)
  /-- sent on `outboundQueue` -/
  | enqueued (i : OutboundItem)
  /-- `Submit` returned; with the message it enqueued if it returned true -/
  | submitReturned (r : Option ControllerMessage)
  /-- received from `outboundQueue` by the worker, or by the shutdown drain -/
  | outboundTaken (i : OutboundItem) | outboundDrained (i : OutboundItem)
  /-- the request was sent to `/message` -/
  | posted (m : ControllerMessage)
  /-- the request was sent to `/message` once more, after a redirect -/
  | reposted (m : ControllerMessage)
  /-- the exchange ended; `posting` if the last request was a `POST` -/
  | answered (m : ControllerMessage) (posting : Bool) (err : Option PostError)
  | outboundClosed | callbackClosed
  /-- sent on `callbackQueue` -/
  | callbackEnqueued (i : ReinjectionItem)
  /-- `acceptCallback` returned -/
  | callbackReturned (i : ReinjectionItem) (r : Bool)
  /-- `serveMessage` wrote its answer, or panicked -/
  | responded (r : Response)
  | callbackTaken (i : ReinjectionItem) | callbackDrained (i : ReinjectionItem)
  /-- `releaseQueuedReservations` returned -/
  | released
  /-- `Reactor.Receive` was invoked -/
  | received (i : ReinjectionItem) (src : ℕ) (m : P)
  | returned (r : Returned)
  | fatalRecorded (e : MediationFatalError)
  /-- `onFatal` was invoked -/
  | ownerNotified (e : MediationFatalError)

/-! ### Calling `fatal` -/

/-- Where a goroutine stands inside `fatal`. -/
inductive FatalPc where
  | record (e : MediationFatalError)
  | send (e : MediationFatalError) (notifyOwner : Bool)
  | notify (e : MediationFatalError)
  deriving DecidableEq, Repr

variable {P : Type*}

/-- `fatal`. Returning `none` as program counter means that the call has returned. The owner's
`onFatal` is `Node.recordControllerFatal`, which keeps the first error it is given. -/
def FatalPc.step (s : Shared) : FatalPc → Option (Shared × Option FatalPc × List (Event P))
  | .record e =>
    if s.fatalErr.isSome then some (s, none, [])
    else some ({ s with fatalErr := some e, ready := false }, some (.send e s.everReady),
      [.fatalRecorded e])
  | .send e notifyOwner =>
    if s.fatalC.length < 1 then
      some ({ s with fatalC := s.fatalC ++ [e] },
        if notifyOwner then some (.notify e) else none, [])
    else none
  | .notify e =>
    some ({ s with controllerFatal := some (s.controllerFatal.getD e) }, none, [.ownerNotified e])

/-! ### Program counters -/

/-- `p2p.SendMode`. -/
inductive SendMode where
  | blocking | nonBlocking
  deriving DecidableEq, Repr

/-- The arguments of `Submit`; of the message only its Go type matters. -/
structure SubmitCall where
  destination : ID
  channelID : UInt8
  type : MsgType
  wrapped : Bytes
  mode : SendMode
  deriving DecidableEq, Repr

/-- What `Submit` has computed before it asks for admission. -/
structure Parcel where
  label : Bytes
  payload : Bytes
  deriving DecidableEq, Repr

/-- Where a goroutine stands inside `Submit`. -/
inductive SubmitPc where
  | enter
  /-- about to return false without having taken the gate -/
  | fail
  /-- first `select` of `acquireSubmitAdmission` -/
  | gate (p : Parcel)
  /-- second `select` of `acquireSubmitAdmission` -/
  | slot (p : Parcel)
  | ready (p : Parcel)
  /-- about to execute `<-outboundSlots` and return false -/
  | dropSlot
  /-- about to load `outboundBytes` -/
  | bytes (p : Parcel)
  | reserve (p : Parcel)
  /-- about to call `nextID` -/
  | number (p : Parcel)
  | undoBytes (p : Parcel) (e : FatalCause)
  | undoSlot (e : FatalCause)
  | enqueue (m : ControllerMessage)
  /-- about to put the token back into `submitGate` and return -/
  | leave (r : Option ControllerMessage)
  | done
  deriving DecidableEq, Repr

/-- An HTTP request to the callback: its method, what `mime.ParseMediaType` makes of its content
type, and its body. -/
structure Request where
  method : Bytes
  mediaType : Option Bytes
  body : Bytes
  deriving DecidableEq, Repr

/-- Where a goroutine stands inside `serveMessage` and `acceptCallback`. -/
inductive ServePc where
  | request (r : Request)
  | ready (r : Request)
  /-- about to call `peers.Get` -/
  | lookup (m : ControllerMessage)
  /-- about to call `peer.IsRunning` -/
  | running (m : ControllerMessage) (peer : ℕ)
  /-- about to lock `callbackMu` -/
  | lock (i : ReinjectionItem)
  | check (i : ReinjectionItem)
  | slot (i : ReinjectionItem)
  | bytes (i : ReinjectionItem)
  | dropSlot (i : ReinjectionItem)
  | reserve (i : ReinjectionItem)
  | enqueue (i : ReinjectionItem)
  /-- about to unlock `callbackMu` and return from `acceptCallback` -/
  | unlock (i : ReinjectionItem) (r : Bool)
  /-- about to call `isStopping` after a refused admission -/
  | stopping (i : ReinjectionItem)
  | respond (r : Response)
  | done
  deriving DecidableEq, Repr

inductive SubmissionPc where
  | recv
  | slot (i : OutboundItem)
  | post (i : OutboundItem)
  /-- request number `sent` is out, a `POST` if `posting`, and the answer is not in -/
  | answer (i : OutboundItem) (sent : ℕ) (posting : Bool)
  | bytes (i : OutboundItem) (err : Option PostError)
  /-- about to execute the deferred `workers.Done()`; `ok` if the range loop ended by itself -/
  | exit (ok : Bool)
  | stopped (ok : Bool)
  deriving DecidableEq, Repr

inductive ReinjectionPc (P : Type*) where
  | recv
  | slot (i : ReinjectionItem)
  | lookup (i : ReinjectionItem)
  | running (i : ReinjectionItem) (peer : ℕ)
  /-- about to invoke `Reactor.Receive` -/
  | dispatch (i : ReinjectionItem) (peer : ℕ) (m : P)
  /-- inside `Reactor.Receive` -/
  | receive (i : ReinjectionItem) (peer : ℕ) (m : P)
  | bytes (i : ReinjectionItem) (err : Option ReinjectionError)
  | exit (ok : Bool)
  | stopped (ok : Bool)

/-- Where a goroutine stands inside `stopLocked` and `releaseQueuedReservations`. -/
inductive StopPc where
  | flags
  /-- `server.Shutdown` has been called -/
  | shutdown
  | takeGate
  | closeOutbound
  | putGate
  | lockCallback
  | closeCallback
  | unlockCallback
  /-- the `select` on `done` and the timer -/
  | wait
  | drainOutbound
  | outboundSlot (i : OutboundItem)
  | outboundBytes (i : OutboundItem)
  | drainCallback
  | callbackSlot (i : ReinjectionItem)
  | callbackBytes (i : ReinjectionItem)
  deriving DecidableEq, Repr

/-- Where a goroutine stands inside `Start` or `Stop`. -/
inductive LifecyclePc where
  | startLock
  | startCheck
  | listen
  | register (attempt : ℕ)
  | retry (attempt : ℕ)
  | becomeReady
  | stopLock
  | stopCheck
  /-- inside `stopLocked`, on behalf of a failed `Start` or of `Stop`, which then returns `r` -/
  | teardown (r : Returned) (pc : StopPc)
  /-- about to leave with this lifecycle state, unlocking `lifecycleMu` -/
  | unlock (r : Returned) (l : Lifecycle)
  | done
  deriving DecidableEq, Repr

/-- A goroutine, by the function it runs. -/
inductive Proc (P : Type*) where
  | submit (c : SubmitCall) (pc : SubmitPc)
  | serve (pc : ServePc)
  | submission (pc : SubmissionPc)
  | reinjection (pc : ReinjectionPc P)
  | lifecycle (pc : LifecyclePc)
  /-- the goroutine around `server.Serve` -/
  | listener (serving : Bool)
  /-- a caller of `LocalInvariant`, with nothing else to do -/
  | caller

/-- What a step of a goroutine at a program counter of type `κ` leaves behind: the shared record,
the next program counter, the error with which it calls `fatal` before going on, the goroutines
it launched, and what was observed. -/
structure Result (P κ : Type*) where
  shared : Shared
  pc : κ
  fatal : Option MediationFatalError := none
  launched : List (Proc P) := []
  events : List (Event P) := []

def Result.map {κ κ' : Type*} (f : κ → κ') (r : Result P κ) : Result P κ' :=
  ⟨r.shared, f r.pc, r.fatal, r.launched, r.events⟩

/-- The goroutine goes on at `pc`. -/
@[simps] def Result.to {κ : Type*} (s : Shared) (pc : κ) (events : List (Event P) := []) :
    Result P κ where
  shared := s
  pc := pc
  events := events

/-- The goroutine calls `fatal` before it goes on. -/
@[simps] def Result.raise {κ : Type*} (s : Shared) (pc : κ) (e : MediationFatalError) :
    Result P κ where
  shared := s
  pc := pc
  fatal := some e

/-- The goroutine takes the process down. -/
def Result.crash {κ : Type*} (s : Shared) (pc : κ) : Result P κ := .to { s with crashed := true } pc

/-! ### `Submit` -/

namespace Service

/-- The checks of `Submit` before admission. -/
def prepare (m : Service P) (c : SubmitCall) : Except FatalCause Parcel :=
  match selectedMessageBinding c.type with
  | none => .error (.routeMismatch c.type c.channelID)
  | some (label, expectedRoute) =>
    if expectedRoute ≠ c.channelID then .error (.routeMismatch c.type c.channelID)
    else match m.registry.receiveCapacity c.channelID with
      | none => .error (.capacity c.channelID)
      | some capacity =>
        if c.wrapped.length > capacity then .error (.capacity c.channelID)
        else match encodeAdapterPayload c.channelID c.wrapped with
          | .error e => .error (.adapter e)
          | .ok payload => .ok ⟨label, payload⟩

/-- `nextID`, under `counterMu`. -/
def nextID (m : Service P) (s : Shared) (destination : ID) : Except FatalCause (Shared × Bytes) :=
  match s.counters destination with
  | none =>
    if s.counterCount ≥ m.limits.counterRegistryCapacity then .error .registryExhausted
    else .ok ({ s with
        counters := update s.counters destination (some 1)
        counterCount := s.counterCount + 1 }, messageID m.localID destination 0)
  | some next =>
    if next = 2 ^ 64 - 1 then .error .counterExhausted
    else .ok ({ s with counters := update s.counters destination (some (next + 1)) },
      messageID m.localID destination next)

end Service

/-- `Submit` and `acquireSubmitAdmission`. -/
def submitStep (m : Service P) (s : Shared) (c : SubmitCall) (ch : Choice) :
    SubmitPc → Option (Result P SubmitPc)
  | .enter =>
    match m.prepare c with
    | .error e => some (.raise s .fail (localInvariant e))
    | .ok p => some (.to s (.gate p))
  | .fail => some (.to s .done [.submitReturned none])
  | .gate p =>
    if ch = .go ∧ 0 < s.submitGate then
      some (.to { s with submitGate := s.submitGate - 1 } (.slot p) [.gateTaken])
    -- the `default` case, the timer, or a cancelled context
    else if (c.mode = .nonBlocking ∧ s.submitGate = 0) ∨
        (c.mode = .blocking ∧ (ch = .timer ∨ (ch = .cancel ∧ s.cancelled))) then
      some (.to s .done [.submitReturned none])
    else none
  | .slot p =>
    if ch = .go ∧ s.outboundSlots < m.limits.outboundQueueCapacity then
      some (.to { s with outboundSlots := s.outboundSlots + 1 } (.ready p))
    else if (c.mode = .nonBlocking ∧ ¬ s.outboundSlots < m.limits.outboundQueueCapacity) ∨
        (c.mode = .blocking ∧ (ch = .timer ∨ (ch = .cancel ∧ s.cancelled))) then
      some (.to s (.leave none))
    else none
  | .ready p =>
    if s.isReady then some (.to s (.bytes p)) else some (.to s .dropSlot)
  | .dropSlot =>
    if 0 < s.outboundSlots then
      some (.to { s with outboundSlots := s.outboundSlots - 1 } (.leave none))
    else none
  | .bytes p =>
    if s.outboundBytes + p.payload.length > m.limits.outboundQueueBytes then
      some (.to s .dropSlot)
    else some (.to s (.reserve p))
  | .reserve p =>
    some (.to { s with outboundBytes := s.outboundBytes + p.payload.length } (.number p))
  | .number p =>
    match m.nextID s c.destination with
    | .error e => some (.to s (.undoBytes p e))
    | .ok (s', id) =>
      some (.to s' (.enqueue ⟨m.localID, c.destination, p.payload, p.label, id⟩) [.numbered id])
  | .undoBytes p e =>
    some (.to { s with outboundBytes := s.outboundBytes - p.payload.length } (.undoSlot e))
  | .undoSlot e =>
    if 0 < s.outboundSlots then
      some (.raise { s with outboundSlots := s.outboundSlots - 1 } (.leave none) (localInvariant e))
    else none
  | .enqueue msg =>
    match s.outboundQueue.send m.limits.outboundQueueCapacity ⟨msg, msg.Data.length⟩ with
    | .blocks => none
    | .panics => some (.crash s (.enqueue msg))
    | .done q =>
      some (.to { s with outboundQueue := q } (.leave (some msg))
        [.enqueued ⟨msg, msg.Data.length⟩])
  | .leave r =>
    if s.submitGate < 1 then
      some (.to { s with submitGate := s.submitGate + 1 } .done [.submitReturned r])
    else none
  | .done => none

/-! ### `serveMessage` and `acceptCallback` -/

namespace Service

/-- `http.MaxBytesReader` and `decodeControllerMessage`, with the checks up to the peer lookup. -/
def checkOuter (m : Service P) (r : Request) : Except Reject ControllerMessage :=
  if r.body.length > m.limits.callbackMaxBodyBytes then
    .error (if m.limitFirst r.body then .oversized else .malformed)
  else match m.decodeControllerMessage r.body with
    | none => .error .malformed
    | some outer =>
      if outer.To ≠ m.localID then .error .wrongDestination
      else if !validateControllerID outer.From then .error .unknownSource
      else if !validateControllerMessageID outer || outer.Typ = [] then .error .fieldInvalid
      else .ok outer

/-- The checks of `serveMessage` after the peer lookup, on the adapter payload. -/
def checkPayload (m : Service P) (outer : ControllerMessage) : Except Response ReinjectionItem :=
  match decodeAdapterPayload outer.Data with
  | .error _ => .error (.rejected .adapterInvalid)
  | .ok payload =>
    match m.registry.receiveCapacity payload.ChannelID with
    | none => .error (.rejected .unknownRoute)
    | some capacity =>
      if !selectedRoute payload.ChannelID then .error (.rejected .unknownRoute)
      else if payload.Wrapped.length > capacity then .error (.rejected .nativeOversized)
      else match m.registry.decode payload.ChannelID payload.Wrapped with
        | none => .error (.rejected .decodeRejected)
        | some decoded =>
          if selectedMessageBinding (m.native.typeOf decoded) ≠ some (outer.Typ, payload.ChannelID)
          then .error (.rejected .typeMismatch)
          else match m.native.validateSelectedMessage decoded with
            | .error _ => .error .aborted
            | .ok false => .error (.rejected .semanticRejection)
            | .ok true => .ok ⟨outer, payload.ChannelID, payload.Wrapped, payload.Wrapped.length⟩

end Service

/-- `serveMessage`, with `acceptCallback` from `lock` to `unlock`. -/
def serveStep (m : Service P) (s : Shared) : ServePc → Option (Result P ServePc)
  | .request r =>
    if r.method ≠ ascii "POST" then
      some (.to s (.respond (.rejected .methodNotAllowed)))
    else if r.mediaType ≠ some (ascii "application/json") then
      some (.to s (.respond (.rejected .contentType)))
    else some (.to s (.ready r))
  | .ready r =>
    if s.isReady then
      match m.checkOuter r with
      | .error e => some (.to s (.respond (.rejected e)))
      | .ok outer => some (.to s (.lookup outer))
    else some (.to s (.respond (.rejected .notReady)))
  | .lookup outer =>
    match s.peers outer.From with
    | none => some (.to s (.respond (.rejected .staleSource)))
    | some peer => some (.to s (.running outer peer))
  | .running outer peer =>
    if s.running peer then
      match m.checkPayload outer with
      | .error e => some (.to s (.respond e))
      | .ok item => some (.to s (.lock item))
    else some (.to s (.respond (.rejected .staleSource)))
  | .lock i =>
    if s.callbackMu then none
    else some (.to { s with callbackMu := true } (.check i))
  | .check i =>
    if s.isReady then some (.to s (.slot i))
    else some (.to s (.unlock i false))
  | .slot i =>
    if s.callbackSlots < m.limits.callbackQueueCapacity then
      some (.to { s with callbackSlots := s.callbackSlots + 1 } (.bytes i))
    else some (.to s (.unlock i false))
  | .bytes i =>
    if s.callbackBytes + i.bytes > m.limits.callbackQueueBytes then
      some (.to s (.dropSlot i))
    else some (.to s (.reserve i))
  | .dropSlot i =>
    if 0 < s.callbackSlots then
      some (.to { s with callbackSlots := s.callbackSlots - 1 } (.unlock i false))
    else none
  | .reserve i =>
    some (.to { s with callbackBytes := s.callbackBytes + i.bytes } (.enqueue i))
  | .enqueue i =>
    match s.callbackQueue.send m.limits.callbackQueueCapacity i with
    | .blocks => none
    | .panics => some (.crash s (.enqueue i))
    | .done q =>
      some (.to { s with callbackQueue := q } (.unlock i true) [.callbackEnqueued i])
  | .unlock i r =>
    if s.callbackMu then
      some (.to { s with callbackMu := false } (if r then .respond .accepted else .stopping i)
        [.callbackReturned i r])
    else some (.crash s (.unlock i r))
  | .stopping _ =>
    if s.stopping then some (.to s (.respond (.rejected .shutdownRejected)))
    else some (.raise s (.respond (.rejected .admissionFatal)) (controlChannelFailure .admission))
  | .respond r => some (.to s .done [.responded r])
  | .done => none

/-! ### The workers -/

/-- `submissionWorker` and `post`. A failed exchange may or may not have reached the controller. The
`http.Client` of the service has no `CheckRedirect`: it follows redirects until ten requests have
been made, with the method and the body of the last one after a 307 or 308 and with a `GET` after
a 301, 302 or 303, and `post` looks at the last answer only. -/
def submissionStep (s : Shared) (ch : Choice) : SubmissionPc → Option (Result P SubmissionPc)
  | .recv =>
    match s.outboundQueue.recv with
    | .done (some i, q) =>
      some (.to { s with outboundQueue := q } (.slot i) [.outboundTaken i])
    | .done (none, _) => some (.to s (.exit true))
    | _ => none
  | .slot i =>
    if 0 < s.outboundSlots then
      some (.to { s with outboundSlots := s.outboundSlots - 1 } (.post i))
    else none
  | .post i =>
    match ch with
    | .go => some (.to s (.answer i 1 true) [.posted i.message])
    | .fail => some (.to s (.bytes i (some .transport)))
    | _ => none
  | .answer i sent posting =>
    match ch with
    | .redirect code toMessage =>
      let posting' := posting && decide (code = 307 ∨ code = 308)
      if code ∈ [301, 302, 303, 307, 308] ∧ sent < 10 then
        some (.to s (.answer i (sent + 1) posting')
          (if posting' && toMessage then [.reposted i.message] else []))
      else none
    | .status code =>
      let err := if code < 200 ∨ 300 ≤ code then some (PostError.http code) else none
      some (.to s (.bytes i err) [.answered i.message posting err])
    | .fail =>
      some (.to s (.bytes i (some .transport)) [.answered i.message posting (some .transport)])
    | _ => none
  | .bytes i err =>
    let s' := { s with outboundBytes := s.outboundBytes - i.bytes }
    match err with
    | none => some (.to s' .recv)
    | some e =>
      some (.raise s' (.exit false) (controlChannelFailure (.submit i.message.ID e)))
  | .exit ok =>
    if 0 < s.workers then some (.to { s with workers := s.workers - 1 } (.stopped ok))
    else none
  | .stopped _ => none

/-- `reinjectionWorker`, with `NativeRouteRegistry.Dispatch` from `dispatch` on. While the Reactor
runs it may stop and remove the source peer, as `StopPeerForError` does; a panic of the Reactor
takes the same path before it becomes an error. -/
def reinjectionStep (m : Service P) (s : Shared) (ch : Choice) :
    ReinjectionPc P → Option (Result P (ReinjectionPc P))
  | .recv =>
    match s.callbackQueue.recv with
    | .done (some i, q) =>
      some (.to { s with callbackQueue := q } (.slot i) [.callbackTaken i])
    | .done (none, _) => some (.to s (.exit true))
    | _ => none
  | .slot i =>
    if 0 < s.callbackSlots then
      some (.to { s with callbackSlots := s.callbackSlots - 1 } (.lookup i))
    else none
  | .lookup i =>
    match s.peers i.message.From with
    | none => some (.to s (.bytes i (some .disconnected)))
    | some peer => some (.to s (.running i peer))
  | .running i peer =>
    if s.running peer then
      match m.registry i.channelID with
      | none => some (.to s (.bytes i (some .decode)))
      | some route =>
        match route.decode i.wrapped with
        | none => some (.to s (.bytes i (some .decode)))
        | some decoded =>
          if route.hasReactor then some (.to s (.dispatch i peer decoded))
          else some (.to s (.bytes i (some .missingRoute)))
    else some (.to s (.bytes i (some .disconnected)))
  | .dispatch i peer decoded =>
    some (.to s (.receive i peer decoded) [.received i peer decoded])
  | .receive i peer decoded =>
    match ch with
    | .go => some (.to s (.bytes i none))
    | .stopSource =>
      some (.to { s with running := update s.running peer false } (.receive i peer decoded))
    | .removeSource =>
      some (.to { s with peers := update s.peers i.message.From none } (.receive i peer decoded))
    | .reactorPanic => some (.to s (.bytes i (some .reactorPanic)))
    | _ => none
  | .bytes i err =>
    let s' := { s with callbackBytes := s.callbackBytes - i.bytes }
    match err with
    | none => some (.to s' .recv)
    | some e =>
      some (.raise s' (.exit false) (localInvariant (.lost i.message.ID e)))
  | .exit ok =>
    if 0 < s.workers then some (.to { s with workers := s.workers - 1 } (.stopped ok))
    else none
  | .stopped _ => none

/-! ### `Start` and `Stop` -/

/-- `stopLocked` and `releaseQueuedReservations`; `none` as program counter means that the call
has returned. -/
def stopStep (s : Shared) (ch : Choice) : StopPc → Option (Result P (Option StopPc))
  | .flags => some (.to { s with ready := false, stopping := true } (some .shutdown))
  | .shutdown => some (.to { s with cancelled := true } (some .takeGate))
  | .takeGate =>
    if 0 < s.submitGate then
      some (.to { s with submitGate := s.submitGate - 1 } (some .closeOutbound) [.gateTaken])
    else none
  | .closeOutbound =>
    match s.outboundQueue.close with
    | .done q =>
      some (.to { s with outboundQueue := q } (some .putGate) [.outboundClosed])
    | .panics => some (.crash s (some .closeOutbound))
    | .blocks => none
  | .putGate =>
    if s.submitGate < 1 then
      some (.to { s with submitGate := s.submitGate + 1 } (some .lockCallback))
    else none
  | .lockCallback =>
    if s.callbackMu then none
    else some (.to { s with callbackMu := true } (some .closeCallback))
  | .closeCallback =>
    match s.callbackQueue.close with
    | .done q =>
      some (.to { s with callbackQueue := q } (some .unlockCallback) [.callbackClosed])
    | .panics => some (.crash s (some .closeCallback))
    | .blocks => none
  | .unlockCallback =>
    if s.callbackMu then some (.to { s with callbackMu := false } (some .wait))
    else some (.crash s (some .unlockCallback))
  | .wait =>
    match ch with
    | .go => if s.workers = 0 then some (.to s (some .drainOutbound)) else none
    | .timer =>
      some (.raise s none (localInvariant .shutdownTimeout))
    | _ => none
  | .drainOutbound =>
    match s.outboundQueue.recv with
    | .done (some i, q) =>
      some (.to { s with outboundQueue := q } (some (.outboundSlot i)) [.outboundDrained i])
    | .done (none, _) => some (.to s (some .drainCallback))
    | _ => none
  | .outboundSlot i =>
    if 0 < s.outboundSlots then
      some (.to { s with outboundSlots := s.outboundSlots - 1 } (some (.outboundBytes i)))
    else none
  | .outboundBytes i =>
    some (.to { s with outboundBytes := s.outboundBytes - i.bytes } (some .drainOutbound))
  | .drainCallback =>
    match s.callbackQueue.recv with
    | .done (some i, q) =>
      some (.to { s with callbackQueue := q } (some (.callbackSlot i)) [.callbackDrained i])
    | .done (none, _) => some (.to s none [.released])
    | _ => none
  | .callbackSlot i =>
    if 0 < s.callbackSlots then
      some (.to { s with callbackSlots := s.callbackSlots - 1 } (some (.callbackBytes i)))
    else none
  | .callbackBytes i =>
    some (.to { s with callbackBytes := s.callbackBytes - i.bytes } (some .drainCallback))

/-- Where `Start` or `Stop` stands once `stopLocked` is at `pc`. -/
def LifecyclePc.resume (r : Returned) : Option StopPc → LifecyclePc
  | some pc => .teardown r pc
  | none => .unlock r .stopped

/-- `Start`, with `register`, and `Stop`. Both hold `lifecycleMu` from their first step to their
last, which stores the final lifecycle state and returns. -/
def lifecycleStep (m : Service P) (s : Shared) (ch : Choice) :
    LifecyclePc → Option (Result P LifecyclePc)
  | .startLock =>
    if s.lifecycleMu then none
    else some (.to { s with lifecycleMu := true } .startCheck)
  | .startCheck =>
    if s.lifecycle ≠ .new then
      some (.to s (.unlock (.start (some .alreadyTransitioned)) s.lifecycle))
    else some (.to { s with lifecycle := .starting } .listen)
  | .listen =>
    match ch with
    | .go =>
      some { shared := { s with workers := s.workers + 2 }, pc := .register 1,
             launched := [.submission .recv, .reinjection .recv, .listener true] }
    | .fail => some (.to s (.teardown (.start (some .bind)) .flags))
    | _ => none
  | .register attempt =>
    if m.limits.registrationAttempts < attempt then
      some (.to s (.teardown (.start (some .registrationExhausted)) .flags))
    else match ch with
      | .status code =>
        if code < 200 ∨ 300 ≤ code then some (.to s (.retry attempt))
        else some (.to s .becomeReady)
      | .fail => some (.to s (.retry attempt))
      | _ => none
  | .retry attempt =>
    if attempt = m.limits.registrationAttempts then
      some (.to s (.teardown (.start (some .registrationExhausted)) .flags))
    else match ch with
      | .timer => some (.to s (.register (attempt + 1)))
      | .cancel =>
        if s.cancelled then
          some (.to s (.teardown (.start (some .registrationCanceled)) .flags))
        else none
      | _ => none
  | .becomeReady =>
    match s.fatalErr with
    | some e => some (.to s (.teardown (.start (some (.fatal e))) .flags))
    | none =>
      some (.to { s with ready := true, everReady := true } (.unlock (.start none) .running))
  | .stopLock =>
    if s.lifecycleMu then none
    else some (.to { s with lifecycleMu := true } .stopCheck)
  | .stopCheck =>
    if s.lifecycle = .stopped then some (.to s (.unlock .stop .stopped))
    else some (.to { s with lifecycle := .stopping } (.teardown .stop .flags))
  | .teardown r pc => (stopStep s ch pc).map (Result.map (LifecyclePc.resume r))
  | .unlock r l =>
    if s.lifecycleMu then
      some (.to { s with lifecycle := l, lifecycleMu := false } .done [.returned r])
    else some (.crash s (.unlock r l))
  | .done => none

/-- The goroutine that runs `server.Serve`: it ends with `http.ErrServerClosed`, or with an error
that is fatal. -/
def listenerStep (s : Shared) (ch : Choice) : Bool → Option (Result P Bool)
  | true =>
    match ch with
    | .go => some (.to s false)
    | .fail =>
      some (.raise s false (controlChannelFailure .listenerTerminated))
    | _ => none
  | false => none

/-- One step of the function a goroutine runs. -/
def Proc.step (m : Service P) (s : Shared) (ch : Choice) : Proc P → Option (Result P (Proc P))
  | .submit c pc => (submitStep m s c ch pc).map (.map (.submit c))
  | .serve pc => (serveStep m s pc).map (.map .serve)
  | .submission pc => (submissionStep s ch pc).map (.map .submission)
  | .reinjection pc => (reinjectionStep m s ch pc).map (.map .reinjection)
  | .lifecycle pc => (lifecycleStep m s ch pc).map (.map .lifecycle)
  | .listener serving => (listenerStep s ch serving).map (.map .listener)
  | .caller => none

/-! ### The machine -/

/-- A goroutine: the function it runs, and where it stands inside `fatal` if it has called it. -/
structure Thread (P : Type*) where
  fatal : Option FatalPc := none
  proc : Proc P

/-- The goroutine that a step leaves behind, inside `fatal` if the step raised an error. -/
def Thread.after (fatal : Option MediationFatalError) (proc : Proc P) : Thread P :=
  ⟨fatal.map .record, proc⟩

/-- What a step of a goroutine leaves behind. -/
abbrev Effect (P : Type*) := Goroutines.Effect Shared (Thread P) (Event P)

/-- The result of a step of the function a goroutine runs, as the effect of the goroutine's step. -/
@[simps] def Result.lift {κ : Type*} (f : κ → Proc P) (r : Result P κ) : Effect P where
  shared := r.shared
  thread := .after r.fatal (f r.pc)
  launched := r.launched.map fun p => { proc := p }
  events := r.events

/-- One step of a goroutine: of `fatal` if it is inside it, of its function otherwise. -/
def Thread.step (m : Service P) (s : Shared) (ch : Choice) (t : Thread P) : Option (Effect P) :=
  match t.fatal with
  | some f => (f.step s).map fun (s', f', evs) =>
      { shared := s', thread := ⟨f', t.proc⟩, events := evs }
  | none => (t.proc.step m s ch).map (Result.lift id)

/-- The calls that come from outside. -/
inductive Call where
  | submit (c : SubmitCall)
  | serveMessage (r : Request)
  | start
  | stop
  | localInvariant (e : ℕ)
  deriving DecidableEq, Repr

/-- The goroutine making a call. -/
def Call.thread : Call → Thread P
  | .submit c => { proc := .submit c .enter }
  | .serveMessage r => { proc := .serve (.request r) }
  | .start => { proc := .lifecycle .startLock }
  | .stop => { proc := .lifecycle .stopLock }
  | .localInvariant e => ⟨some (.record (Mediation.localInvariant (.peer e))), .caller⟩

/-- What the world does to the part of the shared record that it owns: the Switch adds a peer, stops
one or removes one, and somebody receives from `FatalC()`. -/
inductive World where
  | peerAdd (id : ID)
  | peerStop (peer : ℕ)
  | peerRemove (id : ID)
  | readFatalC
  deriving DecidableEq, Repr

def Shared.world (s : Shared) : World → Option Shared
  | .peerAdd id =>
    if s.peers id = none then
      some { s with
        peers := update s.peers id (some s.nextPeer)
        running := update s.running s.nextPeer true
        nextPeer := s.nextPeer + 1 }
    else none
  | .peerStop peer => some { s with running := update s.running peer false }
  | .peerRemove id => some { s with peers := update s.peers id none }
  | .readFatalC => if s.fatalC = [] then none else some { s with fatalC := s.fatalC.tail }

/-- The service, its goroutines, and what has been observed so far. -/
abbrev State (P : Type*) := Goroutines.Config Shared (Thread P) (Event P)

abbrev Action := Goroutines.Action Choice Call World

/-- The fields that the world writes. -/
def Shared.withWorld (s s' : Shared) : Shared :=
  { s with peers := s'.peers, running := s'.running, nextPeer := s'.nextPeer,
           fatalC := s'.fatalC }

theorem Shared.world_footprint {s s' : Shared} {w : World} (h : s.world w = some s') :
    s' = s.withWorld s' := by
  cases w <;> dsimp only [Shared.world] at h
  all_goals
    repeat' split at h
    all_goals cases h
    all_goals rfl

/-- The goroutines of the service as one machine, which stops with the first panic. -/
def machine (m : Service P) :
    Goroutines.Machine Shared (Thread P) (Event P) Choice Call World where
  step := Thread.step m
  call := Call.thread
  world := Shared.world
  live s := !s.crashed
  owned := Shared.withWorld
  owned_world := Shared.world_footprint

/-- One step of the machine. -/
abbrev next (m : Service P) : State P → Action → Option (State P) := (machine m).next

/-- Goroutine `i` took a step with effect `r`. -/
abbrev State.move (st : State P) (i : ℕ) (r : Effect P) : State P := Goroutines.Config.move st i r

/-- The state in which `newControllerMediation` leaves the service. -/
def init : State P := { shared := {} }

/-- The states that a service can get into. -/
abbrev Service.Reaches (m : Service P) (st : State P) : Prop := Reachable (next m) init st

/-- The state after a list of actions, if all of them are possible. -/
def Service.after (m : Service P) (as : List Action) : State P := (exec (next m) init as).getD init

theorem Service.reaches_after (m : Service P) {as : List Action}
    (h : (exec (next m) init as).isSome = true) : m.Reaches (m.after as) := by
  obtain ⟨st, hst⟩ := Option.isSome_iff_exists.mp h
  rw [Service.after, hst]
  exact steps_of_exec hst

end CometBFT.Mediation
