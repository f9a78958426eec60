import CometBFT.Lib.Goroutines
import CometBFT.Mediation.Message

/-!
# The node around the mediation service

`node/node.go` installs the mediation service between the Switch and its peers, and
`cmd/cometbft/commands/run_node.go` waits for the node to end. Here the node is a machine of
goroutines: callers of `Node.Start` and `Node.Stop`, the goroutine that `recordControllerFatal`
launches, the command that waits for a signal, the accept routine and the dials of the Switch, and
the senders and receivers on its peers.

`Node`, `Switch` and `peer` are each a `service.BaseService`, whose two flags and quit channel decide
every race between them; each access to a flag is a step of its own. Of the mediation service only
its place matters here, so the state keeps whether the Switch has a sink and whether a peer was
built with one. What the service itself does is in `CometBFT.Mediation`.

## Main definitions

* `BaseService`, `Peer`, `Shared` — the state
* `startStep`, `stopStep`, `waitStep`, `connectStep`, `sendStep`, `receiveStep` — the goroutines
* `machine` — the node as a machine
-/

namespace CometBFT.Node

open Goroutines

open Mediation (ID MsgType)

/-! ### State -/

/-- The fields of `service.BaseService`; `quit` says that the channel is closed. -/
structure BaseService where
  started : Bool := false
  stopped : Bool := false
  quit : Bool := false
  deriving DecidableEq, Repr

/-- `IsRunning`, where both loads are made at once. -/
def BaseService.isRunning (b : BaseService) : Bool := b.started && !b.stopped

/-- A `peer`, as `newPeer` builds it. -/
structure Peer where
  id : ID
  /-- `mediation != nil` -/
  mediated : Bool
  /-- the channels that the other side knows -/
  channels : List UInt8
  started : Bool := false
  stopped : Bool := false
  deriving DecidableEq, Repr

structure Shared where
  /-- the service flags of the Node and of its Switch -/
  node : BaseService := {}
  sw : BaseService := {}
  /-- the mutex `controllerLifecycle` -/
  controllerLifecycle : Bool := false
  /-- `Node.controllerMediation != nil` -/
  controllerMediation : Bool := false
  /-- `Switch.mediation != nil` -/
  mediation : Bool := false
  controllerFatal : Option ℕ := none
  /-- every peer that was ever built -/
  peers : List Peer := []
  /-- the peer set of the Switch -/
  peerSet : List ℕ := []
  transportClosed : Bool := false
  /-- the channel `signals` holds a signal -/
  signals : Bool := false
  deriving DecidableEq, Repr

namespace Shared

/-- `peers.Has(id)`. -/
def hasPeer (s : Shared) (id : ID) : Bool :=
  s.peerSet.any fun p => s.peers[p]?.any fun peer => peer.id == id

/-- Change one peer. -/
def modifyPeer (s : Shared) (p : ℕ) (f : Peer → Peer) : Shared :=
  { s with peers := s.peers.modify p f }

/-- `peers.Remove(peer)`, which goes by the ID. -/
def removePeer (s : Shared) (p : ℕ) : Shared :=
  { s with peerSet := s.peerSet.filter fun q =>
      (s.peers[q]?.map (·.id)) ≠ (s.peers[p]?.map (·.id)) }

end Shared

/-- The ways in which the world resolves a step. -/
inductive Choice where
  /-- the ordinary case, or a success -/
  | go
  /-- the operation fails -/
  | fail
  /-- a connection is up with this node, which knows these channels -/
  | conn (id : ID) (channels : List UInt8)
  /-- the transport reports that it is closed -/
  | closed
  /-- `select` takes the signal, or the quit channel -/
  | signal | quit
  deriving DecidableEq, Repr

/-! ### Program counters -/

inductive StartError where
  | alreadyStarted | alreadyStopped | rpc | configuration | mediation | listen
  | switchStart | dial | stateSync | pruner
  deriving DecidableEq, Repr

inductive StopError where
  | alreadyStopped | notStarted
  deriving DecidableEq, Repr

/-- Where a goroutine stands inside `Node.Start`. -/
inductive StartPc where
  | cas
  | checkStopped
  /-- `OnStart`, about to lock `controllerLifecycle` -/
  | lock
  /-- up to the RPC listeners -/
  | rpc
  /-- `ValidateBasic`, `FreezeNativeRoutes` and `newControllerMediation` -/
  | configure
  | startMediation
  | setSink
  | listen
  /-- inside `Switch.Start` -/
  | switchCas | switchCheckStopped | switchOnStart | switchRevert
  | dial
  | stateSync
  | pruner
  /-- the deferred rollback of `OnStart` -/
  | clearSink (e : StartError) | stopMediation (e : StartError)
  | unlock (e : Option StartError)
  | revert (e : StartError)
  | returned (e : Option StartError)
  deriving DecidableEq, Repr

/-- Where a goroutine stands inside `Node.Stop`. -/
inductive StopPc where
  | cas
  | checkStarted
  | revert
  /-- `OnStop`, about to lock `controllerLifecycle` -/
  | lock
  | clearSink
  | stopMediation
  /-- the services that are not reactors -/
  | stopServices
  /-- inside `Switch.Stop` -/
  | switchCas | switchCheckStarted | switchRevert
  | copyPeers
  | stopPeer (ps : List ℕ)
  | removePeer (p : ℕ) (ps : List ℕ)
  | stopReactors
  | switchQuit
  | closeTransport
  /-- listeners, validator, metrics servers and stores -/
  | closeOthers
  | unlock
  | quit
  | returned (e : Option StopError)
  deriving DecidableEq, Repr

/-- Where the goroutine of `recordControllerFatal` stands. -/
inductive FatalPc where
  | loadStarted | loadStopped
  | stop (pc : StopPc)
  | done
  deriving DecidableEq, Repr

/-- The error with which `waitForControllerMediationNode` returns. -/
inductive ExitError where
  | fatal (e : ℕ)
  | unableToStop (e : StopError)
  deriving DecidableEq, Repr

/-- Where a goroutine stands inside `waitForControllerMediationNode`. -/
inductive WaitPc where
  | select
  | loadStarted | loadStopped
  | stop (pc : StopPc)
  /-- `Stop` has failed, about to call `FatalError` -/
  | stopFailed (e : StopError)
  | reloadStarted (e : StopError) | reloadStopped (e : StopError)
  /-- about to return `FatalError()` -/
  | fatalError
  | returned (e : Option ExitError)
  deriving DecidableEq, Repr

/-- Where a goroutine stands that gets a peer from the transport and adds it: the accept routine, or
`addOutboundPeerWithConfig`. -/
inductive ConnectPc where
  /-- about to call `mediatedMessageSink` -/
  | readSink
  /-- inside `transport.Accept` or `transport.Dial`, with this `mediation` -/
  | connecting (mediated : Bool)
  /-- about to compare with `MaxNumInboundPeers` -/
  | count (p : ℕ)
  /-- inside `addPeer` -/
  | filter (p : ℕ)
  | loadStarted (p : ℕ) | loadStopped (p : ℕ)
  | startPeer (p : ℕ)
  | insert (p : ℕ)
  /-- `addPeer` has failed -/
  | cleanup (p : ℕ)
  | done
  deriving DecidableEq, Repr

/-- Where a goroutine stands inside `peer.send`. -/
inductive SendPc where
  | loadStarted | loadStopped | route | done
  deriving DecidableEq, Repr

/-- Where the receive routine of a connection stands with one message. -/
inductive ReceivePc where
  | packet | onReceive | done
  deriving DecidableEq, Repr

/-- A goroutine, by the function it runs. -/
inductive Proc where
  /-- a caller of `Node.Start`; the command goes on to wait -/
  | start (command : Bool) (pc : StartPc)
  | stop (pc : StopPc)
  /-- about to execute `recordControllerFatal` -/
  | recordFatal (e : ℕ)
  | recorded
  | fatalStop (pc : FatalPc)
  | wait (pc : WaitPc)
  | connect (inbound : Bool) (pc : ConnectPc)
  | send (p : ℕ) (channelID : UInt8) (type : MsgType) (pc : SendPc)
  | receive (p : ℕ) (channelID : UInt8) (pc : ReceivePc)
  deriving DecidableEq, Repr

/-- What is observed of a run. -/
inductive Event where
  | fatalRecorded (e : ℕ)
  /-- `Node.OnStop` returned -/
  | onStopReturned
  | waitReturned (e : Option ExitError)
  /-- `Submit` was called -/
  | submitted (p : ℕ) (channelID : UInt8) (type : MsgType)
  /-- `MConnection.Send` or `TrySend` was called, while the Switch was running or not -/
  | mconnSend (p : ℕ) (channelID : UInt8) (type : MsgType) (running : Bool)
  | directInboundRejected (p : ℕ) (channelID : UInt8)
  /-- bytes from the connection reached `Reactor.Receive` -/
  | received (p : ℕ) (channelID : UInt8) (running : Bool)
  deriving DecidableEq, Repr

/-- What a step of a goroutine at a program counter of type `κ` leaves behind. -/
structure Result (κ : Type*) where
  shared : Shared
  pc : κ
  launched : List Proc := []
  events : List Event := []

/-- The goroutine goes on at `pc`. -/
@[simps] def Result.to {κ : Type*} (s : Shared) (pc : κ) (events : List Event := []) : Result κ where
  shared := s
  pc := pc
  events := events

def Result.map {κ κ' : Type*} (f : κ → κ') (r : Result κ) : Result κ' :=
  ⟨r.shared, f r.pc, r.launched, r.events⟩

def Result.toEffect {κ : Type*} (f : κ → Proc) (r : Result κ) : Effect Shared Proc Event :=
  ⟨r.shared, f r.pc, r.launched, r.events⟩

/-! ### `Start` -/

/-- `BaseService.Start` of the Node, with `OnStart`. -/
def startStep (enabled : Bool) (s : Shared) (ch : Choice) : StartPc → Option (Result StartPc)
  | .cas =>
    if s.node.started then some (.to s (.returned (some .alreadyStarted)))
    else some (.to { s with node := { s.node with started := true } } .checkStopped)
  | .checkStopped =>
    if s.node.stopped then some (.to s (.revert .alreadyStopped))
    else some (.to s .lock)
  | .lock =>
    if s.controllerLifecycle then none
    else some (.to { s with controllerLifecycle := true } .rpc)
  | .rpc =>
    match ch with
    | .go => some (.to s (if enabled then .configure else .listen))
    | .fail => some (.to s (.unlock (some .rpc)))
    | _ => none
  | .configure =>
    match ch with
    | .go => some (.to { s with controllerMediation := true } .startMediation)
    | .fail => some (.to s (.unlock (some .configuration)))
    | _ => none
  | .startMediation =>
    match ch with
    | .go => some (.to s .setSink)
    | .fail =>
      some (.to { s with controllerMediation := false } (.unlock (some .mediation)))
    | _ => none
  | .setSink => some (.to { s with mediation := true } .listen)
  | .listen =>
    match ch with
    | .go => some (.to s .switchCas)
    | .fail => some (.to s (rollback .listen))
    | _ => none
  | .switchCas =>
    if s.sw.started then some (.to s (rollback .switchStart))
    else some (.to { s with sw := { s.sw with started := true } } .switchCheckStopped)
  | .switchCheckStopped =>
    if s.sw.stopped then some (.to s .switchRevert)
    else some (.to s .switchOnStart)
  -- a Reactor may fail to start; otherwise the accept routine is launched
  | .switchOnStart =>
    match ch with
    | .go => some { shared := s, pc := .dial, launched := [.connect true .readSink] }
    | .fail => some (.to s .switchRevert)
    | _ => none
  | .switchRevert =>
    some (.to { s with sw := { s.sw with started := false } } (rollback .switchStart))
  | .dial =>
    match ch with
    | .go => some (.to s .stateSync)
    | .fail => some (.to s (rollback .dial))
    | _ => none
  | .stateSync =>
    match ch with
    | .go => some (.to s .pruner)
    | .fail => some (.to s (rollback .stateSync))
    | _ => none
  | .pruner =>
    match ch with
    | .go => some (.to s (.unlock none))
    | .fail => some (.to s (rollback .pruner))
    | _ => none
  | .clearSink e => some (.to { s with mediation := false } (.stopMediation e))
  | .stopMediation e =>
    some (.to { s with controllerMediation := false } (.unlock (some e)))
  -- unlocking a mutex that is not locked ends the process
  | .unlock e =>
    if s.controllerLifecycle then
      some (.to { s with controllerLifecycle := false }
        (match e with | none => .returned none | some e => .revert e))
    else none
  | .revert e =>
    some (.to { s with node := { s.node with started := false } } (.returned (some e)))
  | .returned _ => none
where
  /-- an error exit of `OnStart` after the mediation service may have been started -/
  rollback (e : StartError) : StartPc := if enabled then .clearSink e else .unlock (some e)

/-! ### `Stop` -/

/-- `BaseService.Stop` of the Node, with `OnStop`. -/
def stopStep (s : Shared) : StopPc → Option (Result StopPc)
  | .cas =>
    if s.node.stopped then some (.to s (.returned (some .alreadyStopped)))
    else some (.to { s with node := { s.node with stopped := true } } .checkStarted)
  | .checkStarted =>
    if s.node.started then some (.to s .lock)
    else some (.to s .revert)
  | .revert =>
    some (.to { s with node := { s.node with stopped := false } } (.returned (some .notStarted)))
  | .lock =>
    if s.controllerLifecycle then none
    else some (.to { s with controllerLifecycle := true }
      (if s.controllerMediation then .clearSink else .stopServices))
  | .clearSink => some (.to { s with mediation := false } .stopMediation)
  | .stopMediation => some (.to s .stopServices)
  | .stopServices => some (.to s .switchCas)
  | .switchCas =>
    if s.sw.stopped then some (.to s .closeTransport)
    else some (.to { s with sw := { s.sw with stopped := true } } .switchCheckStarted)
  | .switchCheckStarted =>
    if s.sw.started then some (.to s .copyPeers)
    else some (.to s .switchRevert)
  | .switchRevert =>
    some (.to { s with sw := { s.sw with stopped := false } } .closeTransport)
  | .copyPeers => some (.to s (.stopPeer s.peerSet))
  | .stopPeer [] => some (.to s .stopReactors)
  | .stopPeer (p :: ps) =>
    -- `stopAndRemovePeer` returns early for a peer that is already stopped
    if s.peers[p]?.any (·.stopped) then some (.to s (.stopPeer ps))
    else some (.to (s.modifyPeer p fun peer => { peer with stopped := true }) (.removePeer p ps))
  | .removePeer p ps => some (.to (s.removePeer p) (.stopPeer ps))
  | .stopReactors => some (.to s .switchQuit)
  | .switchQuit =>
    some (.to { s with sw := { s.sw with quit := true } } .closeTransport)
  | .closeTransport => some (.to { s with transportClosed := true } .closeOthers)
  | .closeOthers => some (.to s .unlock)
  | .unlock =>
    if s.controllerLifecycle then
      some (.to { s with controllerLifecycle := false } .quit [.onStopReturned])
    else none
  | .quit =>
    some (.to { s with node := { s.node with quit := true } } (.returned none))
  | .returned _ => none

/-- Where the goroutine of `recordControllerFatal` goes on from `Stop`. -/
def FatalPc.afterStop : StopPc → FatalPc
  | .returned _ => .done
  | pc => .stop pc

/-- The goroutine that `recordControllerFatal` launches. -/
def fatalStep (s : Shared) : FatalPc → Option (Result FatalPc)
  | .loadStarted =>
    some (.to s (if s.node.started then .loadStopped else .done))
  | .loadStopped => some (.to s (if s.node.stopped then .done else .stop .cas))
  | .stop pc => (stopStep s pc).map (Result.map .afterStop)
  | .done => none

/-! ### Waiting for the end -/

/-- Where `waitForControllerMediationNode` goes on from `Stop`. -/
def WaitPc.afterStop : StopPc → WaitPc
  | .returned none => .fatalError
  | .returned (some e) => .stopFailed e
  | pc => .stop pc

/-- `waitForControllerMediationNode`. -/
def waitStep (s : Shared) (ch : Choice) : WaitPc → Option (Result WaitPc)
  | .select =>
    match ch with
    | .signal =>
      if s.signals then some (.to { s with signals := false } .loadStarted) else none
    | .quit => if s.node.quit then some (.to s .fatalError) else none
    | _ => none
  | .loadStarted =>
    some (.to s (if s.node.started then .loadStopped else .fatalError))
  | .loadStopped =>
    some (.to s (if s.node.stopped then .fatalError else .stop .cas))
  | .stop pc => (stopStep s pc).map (Result.map .afterStop)
  | .stopFailed e =>
    match s.controllerFatal with
    | some f =>
      some (.to s (.returned (some (.fatal f))) [.waitReturned (some (.fatal f))])
    | none => some (.to s (.reloadStarted e))
  | .reloadStarted e =>
    some (.to s (if s.node.started then .reloadStopped e else .fatalError))
  | .reloadStopped e =>
    if s.node.stopped then some (.to s .fatalError)
    else some (.to s (.returned (some (.unableToStop e))) [.waitReturned (some (.unableToStop e))])
  | .fatalError =>
    some (.to s (.returned (s.controllerFatal.map .fatal))
      [.waitReturned (s.controllerFatal.map .fatal)])
  | .returned _ => none

/-! ### Peers -/

/-- The accept routine (`inbound`) and `addOutboundPeerWithConfig`, with `addPeer`. The accept
routine goes round after each peer. -/
def connectStep (inbound : Bool) (s : Shared) (ch : Choice) : ConnectPc → Option (Result ConnectPc)
  | .readSink => some (.to s (.connecting s.mediation))
  | .connecting mediated =>
    match ch with
    | .conn id channels =>
      let p := s.peers.length
      some (.to { s with peers := s.peers ++ [⟨id, mediated, channels, false, false⟩] }
        (if inbound then .count p else .filter p))
    | .fail => some (.to s finished)
    | .closed => if inbound ∧ s.transportClosed then some (.to s .done) else none
    | _ => none
  | .count p =>
    match ch with
    | .go => some (.to s (.filter p))
    | .fail => some (.to s finished)
    | _ => none
  | .filter p =>
    match ch with
    | .go =>
      if s.peers[p]?.any fun peer => s.hasPeer peer.id then some (.to s (.cleanup p))
      else some (.to s (.loadStarted p))
    | .fail => some (.to s (.cleanup p))
    | _ => none
  -- a Switch that is not running does not start the peer, and `addPeer` returns nil
  | .loadStarted p => some (.to s (if s.sw.started then .loadStopped p else finished))
  | .loadStopped p => some (.to s (if s.sw.stopped then finished else .startPeer p))
  | .startPeer p =>
    match ch with
    | .go =>
      some (.to (s.modifyPeer p fun peer => { peer with started := true }) (.insert p))
    | .fail => some (.to s (.cleanup p))
    | _ => none
  | .insert p =>
    match ch with
    | .go =>
      if s.peers[p]?.any fun peer => s.hasPeer peer.id then some (.to s (.cleanup p))
      else some (.to { s with peerSet := s.peerSet ++ [p] } finished)
    | .fail => some (.to s (.cleanup p))
    | _ => none
  | .cleanup p =>
    some (.to (s.modifyPeer p fun peer => { peer with stopped := peer.stopped || peer.started })
      finished)
  | .done => none
where
  finished : ConnectPc := if inbound then .readSink else .done

/-- `peer.send`. -/
def sendStep (s : Shared) (ch : Choice) (p : ℕ) (channelID : UInt8) (type : MsgType) :
    SendPc → Option (Result SendPc)
  | .loadStarted =>
    s.peers[p]?.map fun peer =>
      (.to s (if peer.started then .loadStopped else .done))
  | .loadStopped =>
    s.peers[p]?.map fun peer => (.to s (if peer.stopped then .done else .route))
  | .route =>
    s.peers[p]?.bind fun peer =>
      if !peer.channels.contains channelID then some (.to s .done)
      else match ch with
        | .go =>
          if peer.mediated && Mediation.selected channelID type then
            some (.to s .done [.submitted p channelID type])
          else
            some (.to s .done [.mconnSend p channelID type s.sw.isRunning])
        -- the message cannot be encoded
        | .fail => some (.to s .done)
        | _ => none
  | .done => none

/-- One message arriving at the receive routine of a connection, and `onReceive`. The routine runs
once the peer has been started. -/
def receiveStep (s : Shared) (ch : Choice) (p : ℕ) (channelID : UInt8) :
    ReceivePc → Option (Result ReceivePc)
  | .packet =>
    s.peers[p]?.bind fun peer =>
      if peer.started then some (.to s .onReceive) else none
  | .onReceive =>
    s.peers[p]?.bind fun peer =>
      if peer.mediated && Mediation.selectedRoute channelID then
        some (.to s .done [.directInboundRejected p channelID])
      else match ch with
        | .go => some (.to s .done [.received p channelID s.sw.isRunning])
        -- unknown channel, or the bytes do not decode: the routine panics and recovers
        | .fail => some (.to s .done)
        | _ => none
  | .done => none

/-! ### The machine -/

/-- Where a caller of `Start` goes on: the command waits for the end of a node with mediation. -/
def afterStart (enabled command : Bool) : StartPc → Proc
  | .returned none => if command && enabled then .wait .select else .start command (.returned none)
  | pc => .start command pc

/-- One step of a goroutine. -/
def Proc.step (enabled : Bool) (s : Shared) (ch : Choice) : Proc → Option (Effect Shared Proc Event)
  | .start command pc =>
    (startStep enabled s ch pc).map (Result.toEffect (afterStart enabled command))
  | .stop pc => (stopStep s pc).map (Result.toEffect .stop)
  | .recordFatal e =>
    some { shared := { s with controllerFatal := some (s.controllerFatal.getD e) },
           thread := .recorded, launched := [.fatalStop .loadStarted],
           events := [.fatalRecorded e] }
  | .recorded => none
  | .fatalStop pc => (fatalStep s pc).map (Result.toEffect .fatalStop)
  | .wait pc => (waitStep s ch pc).map (Result.toEffect .wait)
  | .connect inbound pc => (connectStep inbound s ch pc).map (Result.toEffect (.connect inbound))
  | .send p channelID type pc =>
    (sendStep s ch p channelID type pc).map (Result.toEffect (.send p channelID type))
  | .receive p channelID pc =>
    (receiveStep s ch p channelID pc).map (Result.toEffect (.receive p channelID))

/-- The calls that come from outside. -/
inductive Call where
  /-- the command `start` -/
  | runNode
  | start
  | stop
  /-- the mediation service, or a peer, reports a fatal error to `recordControllerFatal` -/
  | fatal (e : ℕ)
  /-- `DialPeerWithAddress`, from `DialPeersAsync`, the reconnect routine, a Reactor or the RPC -/
  | dial
  | send (p : ℕ) (channelID : UInt8) (type : MsgType)
  | packet (p : ℕ) (channelID : UInt8)
  deriving DecidableEq, Repr

/-- The goroutine making a call. -/
def Call.thread : Call → Proc
  | .runNode => .start true .cas
  | .start => .start false .cas
  | .stop => .stop .cas
  | .fatal e => .recordFatal e
  | .dial => .connect false .readSink
  | .send p channelID type => .send p channelID type .loadStarted
  | .packet p channelID => .receive p channelID .packet

/-- What the world does by itself: a signal arrives, or a peer is stopped and removed. -/
inductive World where
  | signal
  | stopPeer (p : ℕ)
  deriving DecidableEq, Repr

def Shared.world (s : Shared) : World → Option Shared
  | .signal => some { s with signals := true }
  | .stopPeer p =>
    some ((s.modifyPeer p fun peer => { peer with stopped := true }).removePeer p)

/-- The node, with mediation enabled or not. -/
def machine (enabled : Bool) : Machine Shared Proc Event Choice Call World where
  step := Proc.step enabled
  call := Call.thread
  world := Shared.world
  owned s s' := { s with peers := s'.peers, peerSet := s'.peerSet, signals := s'.signals }
  owned_world := by rintro s (_ | _) _ ⟨⟩ <;> rfl

abbrev State := Config Shared Proc Event

end CometBFT.Node
