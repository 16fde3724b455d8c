import LocalBolt.PinStore.Impl
import LocalBolt.Session.Impl.Event

/-!
This module contains the session manager: the Rust bridge it polls, its state, its phase
transitions, the user's decisions and its reaction to each daemon event.
-/

namespace LocalBolt

/--
An event waiting in the bridge. `emittedIn` is a history field that no code reads: the generation of
the session manager at the moment the daemon emitted the event.
-/
structure Queued where
  line : Json
  emittedIn : Nat

structure BoltIpc where
  events : List Queued

namespace BoltIpc

def start : BoltIpc := { events := [] }

/--
The event callback of `bolt_ipc_start`: an event that meets a full queue is dropped.
-/
def callback (b : BoltIpc) (event : Queued) : BoltIpc :=
  if b.events.length < 1000 then { events := b.events ++ [event] } else b

def drainEvents (b : BoltIpc) : List Queued × BoltIpc := (b.events, { events := [] })

end BoltIpc

structure IpcManager where
  isConnected : Bool := false
  pendingRequest : Option PairingRequest := none
  sessionPhase : SessionPhase := .idle
  connectedPeer : Option PeerSession := none
  connectedPeerCount : UInt32 := 0
  transferPhase : TransferPhase := .idle
  transferFileSizeBytes : UInt64 := 0
  transferPaused : Bool := false
  generation : Nat := 0
  pendingAcceptPeer : Option PeerSession := none
  pendingInitiatorPeer : Option DiscoveredPeer := none
  pinStore : Option PinStore := none
  handle : Option BoltIpc := none

namespace IpcManager

/--
`start`, where `file` is what the data directory holds and `connects` tells whether one of the five
attempts reached the daemon.
-/
def start (m : IpcManager) (file : Option Json) (connects : Bool) : IpcManager :=
  let m := if m.pinStore.isNone then { m with pinStore := some (PinStore.init file) } else m
  if m.handle.isSome then
    m
  else if connects then
    { m with handle := some .start, isConnected := true }
  else
    { m with isConnected := false }

/-! ### Session phase transitions -/

def resetSession (m : IpcManager) : IpcManager :=
  { m with
    generation := m.generation + 1
    sessionPhase := .idle
    connectedPeer := none
    connectedPeerCount := 0
    transferPhase := .idle
    transferFileSizeBytes := 0
    transferPaused := false
    pendingRequest := none
    pendingAcceptPeer := none
    pendingInitiatorPeer := none }

def disconnectSession (m : IpcManager) (reason : String) : IpcManager :=
  { m with
    sessionPhase := .disconnected reason
    connectedPeer := none
    connectedPeerCount := 0
    transferPhase := .idle
    transferFileSizeBytes := 0
    transferPaused := false
    pendingRequest := none
    pendingAcceptPeer := none
    pendingInitiatorPeer := none }

def stop (m : IpcManager) : IpcManager :=
  resetSession { m with handle := none, isConnected := false }

def resetDisconnectedPresentationIfNeeded (m : IpcManager) : IpcManager :=
  match m.sessionPhase with
  | .disconnected _ => m.resetSession
  | _ => m

def beginRequest (m : IpcManager) (peer : DiscoveredPeer) : Bool × IpcManager :=
  let m := m.resetDisconnectedPresentationIfNeeded
  if m.sessionPhase = .idle then
    (true, { m with sessionPhase := .requesting, pendingInitiatorPeer := some peer })
  else
    (false, m)

def receiveRequest (m : IpcManager) : Bool × IpcManager :=
  let m := m.resetDisconnectedPresentationIfNeeded
  if m.sessionPhase = .idle then
    (true, { m with sessionPhase := .incomingRequest })
  else
    (false, m)

def beginConnecting (m : IpcManager) : Bool × IpcManager :=
  if m.sessionPhase = .requesting ∨ m.sessionPhase = .incomingRequest then
    (true, { m with sessionPhase := .connecting })
  else
    (false, m)

def markConnected (m : IpcManager) : Bool × IpcManager :=
  if m.sessionPhase = .connecting then
    (true, { m with sessionPhase := .connected })
  else
    (false, m)

def isCurrentGeneration (m : IpcManager) (gen : Nat) : Bool := gen == m.generation

/-! ### Decisions -/

def acceptPeer (req : PairingRequest) : PeerSession where
  peerCode := req.requestId
  deviceName := req.deviceName
  deviceType := req.deviceType
  trust := if req.sas.isEmpty then .legacy else .unverified req.sas
  identityKeyB64 := none

def decisionPayload (requestId : String) (decision : PairingDecision) : String :=
  "\x7b\"request_id\":\"" ++ requestId ++ "\",\"decision\":\"" ++ decision.wireValue ++ "\"\x7d"

def sendPairingDecision (m : IpcManager) (_requestId : String) (decision : PairingDecision) :
    IpcManager :=
  match m.handle with
  | none => m
  | some _ =>
    -- the id goes to the daemon; the peer is the one of the request in the slot
    let m :=
      match m.pendingRequest with
      | some req => if decision.isAllow then { m with pendingAcceptPeer := some (acceptPeer req) } else m
      | none => m
    { m with pendingRequest := none }

/--
`connectedPeer?.trust = trust`
-/
def setTrust (m : IpcManager) (trust : TrustState) : IpcManager :=
  { m with connectedPeer := m.connectedPeer.map fun peer => { peer with trust } }

/--
`connectedPeer?.identityKeyB64 = key`
-/
def setIdentityKey (m : IpcManager) (key : String) : IpcManager :=
  { m with connectedPeer := m.connectedPeer.map fun peer => { peer with identityKeyB64 := some key } }

def markVerified (m : IpcManager) : IpcManager := m.setTrust .verified

def clearTransfer (m : IpcManager) : IpcManager :=
  { m with transferPhase := .idle, transferFileSizeBytes := 0, transferPaused := false }

def dismissDisconnect (m : IpcManager) : IpcManager :=
  match m.sessionPhase with
  | .disconnected _ => m.resetSession
  | _ => m

end IpcManager

end LocalBolt
