import LocalBolt.Session.Impl.IpcManager

/-!
This module contains the body of the loop in `poll`: what the session manager does with one event of
the daemon.
-/

namespace LocalBolt

namespace IpcManager

def resolvePeer (m : IpcManager) (remoteIdentityKey : Option String) : IpcManager :=
  match m.pendingAcceptPeer, m.pendingInitiatorPeer, remoteIdentityKey with
  | some pending, _, _ =>
    { m with
      connectedPeer := some { pending with identityKeyB64 := remoteIdentityKey }
      pendingAcceptPeer := none }
  | none, some target, _ =>
    { m with
      connectedPeer := some {
        peerCode := remoteIdentityKey.getD target.peerCode
        deviceName := target.deviceName
        deviceType := target.deviceType
        trust := .legacy
        identityKeyB64 := remoteIdentityKey }
      pendingInitiatorPeer := none }
  | none, none, some peerCode =>
    { m with
      connectedPeer := some {
        peerCode
        deviceName := "Peer"
        deviceType := "desktop"
        trust := .legacy
        identityKeyB64 := remoteIdentityKey } }
  | none, none, none => m

def sessionConnected (m : IpcManager) (remoteIdentityKey : Option String) : IpcManager :=
  let m :=
    if m.sessionPhase = .requesting ∨ m.sessionPhase = .incomingRequest then
      m.beginConnecting.2
    else
      m
  let (connected, m) := m.markConnected
  if connected then m.resolvePeer remoteIdentityKey else m

def identityMismatch (m : IpcManager) (identityKey : Option String) :
    Option (String × String × String) := do
  let key ← identityKey
  let name ← m.connectedPeer.map (·.deviceName)
  let oldKey ← (← m.pinStore).checkMismatch key name
  some (key, name, oldKey)

def sessionSas (m : IpcManager) (sas : Option String) (remoteIdentityPkB64 : Option String)
    (now : Date) : IpcManager :=
  match sas with
  | none => m
  | some sas =>
    let identityKey := remoteIdentityPkB64.or (m.connectedPeer.bind (·.identityKeyB64))
    let peerName := m.connectedPeer.map (·.deviceName)
    match m.identityMismatch identityKey with
    | some (key, name, oldKey) => (m.setTrust (.mismatch name oldKey)).setIdentityKey key
    | none =>
      let m := m.setTrust (.unverified sas)
      match identityKey with
      | some key =>
        let m := m.setIdentityKey key
        { m with pinStore := m.pinStore.map fun store => store.pin key peerName now }
      | none => m

def transferProgress (m : IpcManager) (progress : ℚ) (transferId : String) : IpcManager :=
  match m.transferPhase with
  | .sending fn _ _ => { m with transferPhase := .sending fn transferId progress }
  | .receiving fn _ _ => { m with transferPhase := .receiving fn transferId progress }
  | _ => m

/--
`none` stands for the trap of `UInt32(_:)` on a peer count outside its range.
-/
def statusUpdate (m : IpcManager) (connectedPeers : Int) : Option IpcManager :=
  match uint32? connectedPeers with
  | none => none
  | some count =>
    let m := { m with connectedPeerCount := count }
    if count = 0 ∧ m.sessionPhase = .connected then
      some (m.disconnectSession "peer disconnected")
    else
      some m

def handleEvent (m : IpcManager) (event : DaemonEvent) (now : Date) : Option IpcManager :=
  match event with
  | .pairingRequest request => some { m with pendingRequest := some request }
  | .statusUpdate connectedPeers => m.statusUpdate connectedPeers
  | .sessionConnected remotePeerId => some (m.sessionConnected remotePeerId)
  | .sessionSas sas remoteIdentityPkB64 => some (m.sessionSas sas remoteIdentityPkB64 now)
  | .sessionEnded reason => some (m.disconnectSession reason)
  | .sessionError reason => some (m.disconnectSession reason)
  | .transferStarted fileName transferId direction fileSizeBytes =>
    let m := { m with transferFileSizeBytes := fileSizeBytes }
    if direction = "receive" then
      some { m with transferPhase := .receiving fileName transferId 0 }
    else
      some { m with transferPhase := .sending fileName transferId 0 }
  | .transferProgress progress transferId => some (m.transferProgress progress transferId)
  | .transferComplete fileName savePath =>
    some { m with transferPhase := .complete fileName savePath }
  | .transferError fileName reason => some { m with transferPhase := .failed fileName reason }
  | .transferPaused => some { m with transferPaused := true }
  | .transferResumed => some { m with transferPaused := false }
  | .transferRequest => some m
  | .bridgeDisconnected =>
    -- `stop` resets, so the lines that are left in this poll are stale
    some ({ m with isConnected := false }.disconnectSession "bridge lost").stop
  | .other => some m

end IpcManager

end LocalBolt
