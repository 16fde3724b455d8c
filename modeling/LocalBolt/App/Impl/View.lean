import LocalBolt.App.Impl.App

/-!
This module contains what the views put on the screen, as far as it decides which buttons there are.
A button that was on the screen a moment ago can still be pressed, so the machine of the app does not
depend on it; its runs with buttons on the screen are the ones a user sees.
-/

namespace LocalBolt

namespace App

def sessionPeer (s : App) : Option PeerSession :=
  if s.daemon.isRunning ∧ s.ipc.sessionPhase = .connected then s.ipc.connectedPeer else none

def connectingContent (s : App) : Bool :=
  s.daemon.isRunning && (s.ipc.sessionPhase = .requesting || s.ipc.sessionPhase = .connecting)

def transferArea (s : App) : Option TransferPhase :=
  match s.sessionPeer with
  | some peer =>
    if isTransferAllowed s.ipc.sessionPhase peer.trust then some s.ipc.transferPhase else none
  | none => none

/--
Whether an action is possible as far as the screen is concerned; only buttons depend on it.
-/
def offers (s : App) : Action → Bool
  | .initiateConnection peer _ =>
    s.daemon.isRunning && s.ipc.isConnected && s.ipc.sessionPhase.canStartFreshConnection
      && peer ∈ s.signaling.peers
  | .cancelRequest => s.connectingContent && s.ipc.pendingInitiatorPeer.isSome
  | .cancelAccept =>
    s.connectingContent && s.ipc.pendingInitiatorPeer.isNone && s.ipc.pendingAcceptPeer.isSome
  | .declineRequest request =>
    s.daemon.isRunning && s.ipc.sessionPhase = .incomingRequest
      && s.signaling.incomingConnectionRequest = some request
  | .acceptRequest request _ =>
    s.daemon.isRunning && s.ipc.sessionPhase = .incomingRequest
      && s.signaling.incomingConnectionRequest = some request
  | .disconnect => s.sessionPeer.isSome
  | .disconnectMismatch =>
    match s.sessionPeer with
    | some { trust := .mismatch _ _, .. } => true
    | _ => false
  | .rejectSas =>
    match s.sessionPeer with
    | some { trust := .unverified _, .. } => true
    | _ => false
  | .markVerified =>
    match s.sessionPeer with
    | some { trust := .unverified _, .. } => true
    | _ => false
  | .dismissDisconnect =>
    match s.ipc.sessionPhase with
    | .disconnected _ => s.daemon.isRunning
    | _ => false
  | .sendPairingDecision requestId _ =>
    match s.ipc.pendingRequest with
    | some request => request.requestId = requestId
    | none => false
  | .dismissRequest => s.ipc.pendingRequest.isSome
  | .removeFile _ => s.transferArea = some .idle && !s.fileQueue.isEmpty
  | .clearQueue => s.transferArea = some .idle && !s.fileQueue.isEmpty
  | .sendFirstFile => s.transferArea = some .idle && !s.fileQueue.isEmpty
  | .sendNextOrClear =>
    match s.transferArea with
    | some (.complete _ _) => true
    | _ => false
  | .dismissFailed =>
    match s.transferArea with
    | some (.failed _ _) => true
    | _ => false
  | .cancelTransfer =>
    match s.transferArea with
    | some (.sending _ _ _) => true
    | some (.receiving _ _ _) => true
    | _ => false
  | .togglePause =>
    match s.transferArea with
    | some (.sending _ _ _) => true
    | _ => false
  | _ => true

def renderedNext (s : App) (action : Action) : Option App :=
  if s.offers action then s.next action else none

def rendered (peerCode : String) (daemonBinaryPath : Option String) : Machine App Action :=
  .ofFun (.init peerCode daemonBinaryPath) renderedNext

def renderedSimulation (peerCode : String) (daemonBinaryPath : Option String) :
    Simulation (rendered peerCode daemonBinaryPath) (machine peerCode daemonBinaryPath) where
  state := id
  action _ action := action
  init _ h := h
  step s action s' h := by
    simp only [rendered, Machine.ofFun, renderedNext] at h
    split at h
    . exact h
    . simp at h

/-! ### Scripts -/

def launch (peers : List DiscoveredPeer) : List Action :=
  [.daemonStart (some 9100), .ipcStart none true, .signalingPoll true peers]

def deliver (events : List (String × Json)) (now : Date) : List Action :=
  events.map (fun e => .ipcCallback e.1 e.2) ++ .ipcPoll true
    :: List.replicate (events.length + 1) (.ipcLine now)

def sessionConnectedEvent : String × Json := ("daemon://session-connected", .obj [])

def sessionSasEvent (sas remoteIdentityPkB64 : String) : String × Json :=
  ("daemon://session-sas",
    .obj [("sas", .str sas), ("remote_identity_pk_b64", .str remoteIdentityPkB64)])

end App

end LocalBolt
