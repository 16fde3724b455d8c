import LocalBolt.App.Impl.DaemonManager
import LocalBolt.App.Impl.SignalingManager
import LocalBolt.Session.Impl.Move

/-!
This module contains the macOS app: its managers and views as one state, everything that can happen
to it, and the calls it makes on the daemon and on the signaling server.
-/

namespace LocalBolt

structure FileURL where
  path : String
  deriving DecidableEq

def FileURL.lastPathComponent (url : FileURL) : String :=
  let components := (url.path.toList.splitOn '/').filter (· ≠ [])
  (components.getLast?.map String.ofList).getD "/"

inductive Command where
  | connectToRemote (wsUrl : String) (quicAddr quicCertHash : Option String)
  | allowQuicPeerCertHash (quicCertHash : Option String)
  | requestDisconnect
  | pauseTransfer
  | resumeTransfer
  | sendFile (path : String)
  | sendDecision (msgType payload : String)
  | sendSignal (toPeerCode signalType : String) (dataJson : Option Json)
  deriving DecidableEq

def Command.isDaemon : Command → Bool
  | .sendSignal _ _ _ => false
  | _ => true

/--
A running `poll`: the generation it captured and the lines it has not handled yet.
-/
structure PollFrame where
  gen : Nat
  lines : List Queued

structure Seen where
  connectionDeclined : Bool := false
  wtSessionActive : Bool := false
  wtSessionSAS : Option String := none

structure App where
  daemon : DaemonManager
  signaling : SignalingManager
  ipc : IpcManager
  fileQueue : List FileURL
  polling : Option PollFrame
  seen : Seen

structure Host where
  localIPAddress : String
  localizedName : Option String
  deriving DecidableEq

inductive Action where
  | daemonStart (started : Option UInt16)
  | daemonInfo (wtUrl wtCertHash quicAddr quicCertHash : Option String)
  | daemonPoll (running : Bool) (stderr : Option String)
  | signalingPoll (isConnected : Bool) (updated : List DiscoveredPeer)
  | incomingSignal (signal : IncomingSignal)
  | ipcStart (file : Option Json) (connects : Bool)
  | ipcCallback (eventName : String) (payload : Json)
  | ipcPoll (connected : Bool)
  | ipcLine (now : Date)
  | onConnectionDeclined
  | onWtSessionActive
  | onWtSessionSAS
  | initiateConnection (peer : DiscoveredPeer) (host : Host)
  | cancelRequest
  | cancelAccept
  | declineRequest (request : IncomingSignal)
  | acceptRequest (request : IncomingSignal) (host : Host)
  | disconnect
  | disconnectMismatch
  | rejectSas
  | markVerified
  | dismissDisconnect
  | sendPairingDecision (requestId : String) (decision : PairingDecision)
  | dismissRequest
  | pickFiles (urls : List FileURL)
  | dropFile (url : FileURL)
  | removeFile (index : Nat)
  | clearQueue
  | sendFirstFile
  | sendNextOrClear
  | dismissFailed
  | cancelTransfer
  | togglePause

namespace App

def init (peerCode : String) (daemonBinaryPath : Option String) : App where
  daemon := { daemonBinaryPath }
  signaling := { peerCode }
  ipc := {}
  fileQueue := []
  polling := none
  seen := {}

/-! ### Startup -/

/--
The first line of `autoStart`.
-/
def autoStart (s : App) (started : Option UInt16) : App :=
  if s.daemon.daemonBinaryPath.isSome ∧ ¬ s.daemon.isRunning then
    { s with daemon := s.daemon.start started }
  else
    s

/--
The transport metadata `autoStart` reads once the daemon has written it.
-/
def daemonInfo (s : App) (wtUrl wtCertHash quicAddr quicCertHash : Option String) : App :=
  { s with daemon := { s.daemon with wtUrl, wtCertHash, quicAddr, quicCertHash } }

/-! ### Incoming signals -/

def setField (d : Dict) (key : String) (value : Json) : Dict :=
  (key, value) :: d.filter fun f => f.1 ≠ key

def requestDeviceName (request : IncomingSignal) : String :=
  (request.data.string? "deviceName").getD "Unknown Device"

def requestDeviceType (request : IncomingSignal) : String :=
  (request.data.string? "deviceType").getD "desktop"

def connectionRequest (s : App) (signal : IncomingSignal) : App × List Command :=
  let (received, ipc) := s.ipc.receiveRequest
  if received then
    let requestData := setField signal.data "deviceName" (.str (requestDeviceName signal))
    let requestData := setField requestData "deviceType" (.str (requestDeviceType signal))
    let request := { signal with data := requestData }
    ({ s with ipc, signaling := { s.signaling with incomingConnectionRequest := some request } }, [])
  else
    ({ s with ipc }, [])

def dialUrl (signal : IncomingSignal) : Option String :=
  (signal.data.string? "wsUrl").filter fun wsUrl => !wsUrl.isEmpty

def connectionAccepted (s : App) (signal : IncomingSignal) : App × List Command :=
  let (connecting, ipc) := s.ipc.beginConnecting
  if connecting then
    match dialUrl signal with
    | some wsUrl =>
      ({ s with ipc },
        [.connectToRemote wsUrl (signal.data.string? "quicAddr") (signal.data.string? "quicCertHash")])
    | none => ({ s with ipc }, [])
  else
    ({ s with ipc }, [])

def handleSignal (s : App) (signal : IncomingSignal) : App × List Command :=
  match signal.signalType with
  | "connection_request" => s.connectionRequest signal
  | "connection_accepted" => s.connectionAccepted signal
  | "connection_declined" =>
    ({ s with signaling := { s.signaling with connectionDeclined := true } }, [])
  | _ => (s, [])

/-! ### Reactions to observed changes -/

def onConnectionDeclined (s : App) : App :=
  let s := { s with seen := { s.seen with connectionDeclined := s.signaling.connectionDeclined } }
  if s.signaling.connectionDeclined then
    -- the flag going down is a change as well, for which the closure does nothing
    { s with
      signaling := { s.signaling with connectionDeclined := false }
      ipc := s.ipc.resetSession }
  else
    s

def onWtSessionActive (s : App) : App :=
  { s with
    seen := { s.seen with wtSessionActive := s.daemon.wtSessionActive }
    ipc := ContentView.onWtSessionActive s.ipc s.daemon.wtSessionActive s.daemon.wtSessionSAS }

def onWtSessionSAS (s : App) : App :=
  { s with
    seen := { s.seen with wtSessionSAS := s.daemon.wtSessionSAS }
    ipc := ContentView.applyWtVerificationCode s.ipc s.daemon.wtSessionSAS }

/-! ### Connection buttons -/

def wsUrl (s : App) (host : Host) : String :=
  "ws://" ++ host.localIPAddress ++ ":" ++ toString s.daemon.wsPort.toNat

def transportFields (d : DaemonManager) : Dict :=
  (d.wtUrl.map fun v => ("wtUrl", Json.str v)).toList
    ++ (d.wtCertHash.map fun v => ("certHash", Json.str v)).toList
    ++ (d.quicAddr.map fun v => ("quicAddr", Json.str v)).toList
    ++ (d.quicCertHash.map fun v => ("quicCertHash", Json.str v)).toList

def initiateConnection (s : App) (peer : DiscoveredPeer) (host : Host) : App × List Command :=
  let (requested, ipc) := s.ipc.beginRequest peer
  if requested then
    let payload := .obj <|
      [("deviceName", .str (host.localizedName.getD "Mac")), ("deviceType", .str "desktop"),
        ("wsUrl", .str (s.wsUrl host))] ++ transportFields s.daemon
    ({ s with ipc }, [.sendSignal peer.peerCode "connection_request" (some payload)])
  else
    ({ s with ipc }, [])

def cancelRequest (s : App) : App × List Command :=
  let commands :=
    match s.ipc.pendingInitiatorPeer with
    | some target => [.sendSignal target.peerCode "connection_declined" none]
    | none => []
  ({ s with ipc := s.ipc.resetSession }, commands)

def cancelAccept (s : App) : App × List Command :=
  ({ s with ipc := s.ipc.resetSession }, [])

def declineRequest (s : App) (request : IncomingSignal) : App × List Command :=
  ({ s with
      ipc := s.ipc.resetSession
      signaling := { s.signaling with incomingConnectionRequest := none } },
    [.sendSignal request.fromPeer "connection_declined" none])

def acceptRequest (s : App) (request : IncomingSignal) (host : Host) : App × List Command :=
  let (accepted, ipc) :=
    ContentView.accept s.ipc request.fromPeer (requestDeviceName request) (requestDeviceType request)
  let s := { s with ipc, signaling := { s.signaling with incomingConnectionRequest := none } }
  if accepted then
    let acceptJson := .obj <| [("wsUrl", .str (s.wsUrl host))] ++ transportFields s.daemon
    (s,
      [.allowQuicPeerCertHash (request.data.string? "quicCertHash"),
        .sendSignal request.fromPeer "connection_accepted" (some acceptJson)])
  else
    (s, [])

def disconnectWith (s : App) (reason : String) : App × List Command :=
  ({ s with ipc := s.ipc.disconnectSession reason }, [.requestDisconnect])

def disconnect (s : App) : App × List Command := s.disconnectWith "user initiated"

def disconnectMismatch (s : App) : App × List Command := s.disconnectWith "identity mismatch"

def rejectSas (s : App) : App × List Command := s.disconnectWith "identity not verified"

def sendPairingDecision (s : App) (requestId : String) (decision : PairingDecision) :
    App × List Command :=
  let commands :=
    match s.ipc.handle with
    | none => []
    | some _ => [.sendDecision "pairing.decision" (IpcManager.decisionPayload requestId decision)]
  ({ s with ipc := s.ipc.sendPairingDecision requestId decision }, commands)

/--
The sheet of a pairing request closes: its binding `$ipc.pendingRequest` is set to `nil`.
-/
def dismissRequest (s : App) : App := { s with ipc := { s.ipc with pendingRequest := none } }

/-! ### File queue -/

def pickFiles (s : App) (urls : List FileURL) : App :=
  { s with fileQueue := s.fileQueue ++ urls.filter fun url => url ∉ s.fileQueue }

def dropFile (s : App) (url : FileURL) : App :=
  if url ∈ s.fileQueue then s else { s with fileQueue := s.fileQueue ++ [url] }

def sendFirstFile (s : App) : App × List Command :=
  match s.fileQueue with
  | [] => (s, [])
  | url :: fileQueue =>
    ({ s with
        fileQueue
        ipc := { s.ipc with transferPhase := .sending url.lastPathComponent "pending" 0 } },
      [.sendFile url.path])

def sendNextOrClear (s : App) : App × List Command :=
  if s.fileQueue.isEmpty then ({ s with ipc := s.ipc.clearTransfer }, []) else s.sendFirstFile

def cancelTransfer (s : App) : App × List Command :=
  { s with fileQueue := [] }.disconnectWith "transfer cancelled"

def togglePause (s : App) : App × List Command :=
  (s, [if s.ipc.transferPaused then .resumeTransfer else .pauseTransfer])

/-! ### The IPC poll -/

def ipcPoll (s : App) (connected : Bool) : App :=
  match s.ipc.handle with
  | none => s
  | some b =>
    let lines := b.drainEvents.1
    -- with nothing drained, `poll` returns before it captures the generation
    let polling := if lines.isEmpty then none else some { gen := s.ipc.generation, lines }
    { s with ipc := s.ipc.poll connected, polling }

/--
One turn of the loop in `poll`.
-/
def ipcLine (s : App) (now : Date) : Option App :=
  match s.polling with
  | none => none
  | some { lines := [], .. } => some { s with polling := none }
  | some { gen, lines := queued :: lines } =>
    if s.ipc.isCurrentGeneration gen then
      let s := { s with polling := some { gen, lines } }
      match DaemonEvent.ofLine queued.line with
      | none => some s
      | some event => (s.ipc.handleEvent event now).map fun ipc => { s with ipc }
    else
      -- `break`
      some { s with polling := none }

/-! ### Steps -/

def onMain (s : App) : Action → Option (App × List Command)
  | .daemonStart started => some (s.autoStart started, [])
  | .daemonInfo wtUrl wtCertHash quicAddr quicCertHash =>
    some (s.daemonInfo wtUrl wtCertHash quicAddr quicCertHash, [])
  | .daemonPoll running stderr => some ({ s with daemon := s.daemon.poll running stderr }, [])
  | .signalingPoll isConnected updated =>
    some ({ s with signaling := s.signaling.poll isConnected updated }, [])
  | .incomingSignal signal => some (s.handleSignal signal)
  | .ipcStart file connects => some ({ s with ipc := s.ipc.start file connects }, [])
  | .ipcPoll connected => some (s.ipcPoll connected, [])
  | .onConnectionDeclined =>
    if s.seen.connectionDeclined ≠ s.signaling.connectionDeclined then
      some (s.onConnectionDeclined, [])
    else
      none
  | .onWtSessionActive =>
    if s.seen.wtSessionActive ≠ s.daemon.wtSessionActive then
      some (s.onWtSessionActive, [])
    else
      none
  | .onWtSessionSAS =>
    if s.seen.wtSessionSAS ≠ s.daemon.wtSessionSAS then some (s.onWtSessionSAS, []) else none
  | .initiateConnection peer host => some (s.initiateConnection peer host)
  | .cancelRequest => some s.cancelRequest
  | .cancelAccept => some s.cancelAccept
  | .declineRequest request => some (s.declineRequest request)
  | .acceptRequest request host => some (s.acceptRequest request host)
  | .disconnect => some s.disconnect
  | .disconnectMismatch => some s.disconnectMismatch
  | .rejectSas => some s.rejectSas
  | .markVerified => some ({ s with ipc := s.ipc.markVerified }, [])
  | .dismissDisconnect => some ({ s with ipc := s.ipc.dismissDisconnect }, [])
  | .sendPairingDecision requestId decision => some (s.sendPairingDecision requestId decision)
  | .dismissRequest => some (s.dismissRequest, [])
  | .pickFiles urls => some (s.pickFiles urls, [])
  | .dropFile url => some (s.dropFile url, [])
  | .removeFile index =>
    -- `remove(at:)` traps past the end
    if index < s.fileQueue.length then
      some ({ s with fileQueue := s.fileQueue.eraseIdx index }, [])
    else
      none
  | .clearQueue => some ({ s with fileQueue := [] }, [])
  | .sendFirstFile => some s.sendFirstFile
  | .sendNextOrClear => some s.sendNextOrClear
  | .dismissFailed => some ({ s with fileQueue := [], ipc := s.ipc.clearTransfer }, [])
  | .cancelTransfer => some s.cancelTransfer
  | .togglePause => some s.togglePause
  | .ipcCallback _ _ => none
  | .ipcLine _ => none

/--
One step of the app, with the commands it issues. The bridge thread may queue an event at any time;
while a poll is running, the main thread does nothing else.
-/
def step (s : App) (action : Action) : Option (App × List Command) :=
  match action with
  | .ipcCallback eventName payload =>
    some ({ s with ipc := s.ipc.callback eventName payload }, [])
  | .ipcLine now => (s.ipcLine now).map fun s => (s, [])
  | action => if s.polling.isNone then s.onMain action else none

def next (s : App) (action : Action) : Option App := (s.step action).map Prod.fst

def commands (s : App) (action : Action) : List Command := ((s.step action).map Prod.snd).getD []

def machine (peerCode : String) (daemonBinaryPath : Option String) : Machine App Action :=
  .ofFun (.init peerCode daemonBinaryPath) next

end App

end LocalBolt
