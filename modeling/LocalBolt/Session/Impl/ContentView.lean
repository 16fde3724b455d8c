import LocalBolt.Session.Impl.HandleEvent

/-!
This module contains the closures of the content view that change the session manager's fields
directly: accepting a request, and the reactions to what the daemon log says about a WebTransport
session.
-/

namespace LocalBolt

namespace ContentView

open IpcManager

def applyWtVerificationCode (ipc : IpcManager) (sas : Option String) : IpcManager :=
  match sas with
  | none => ipc
  | some sas => if ipc.sessionPhase = .connected then ipc.setTrust (.unverified sas) else ipc

def resolveWtPeer (ipc : IpcManager) : IpcManager :=
  match ipc.pendingAcceptPeer, ipc.pendingInitiatorPeer with
  | some pending, _ => { ipc with connectedPeer := some pending, pendingAcceptPeer := none }
  | none, some target =>
    { ipc with
      connectedPeer := some {
        peerCode := target.peerCode
        deviceName := target.deviceName
        deviceType := target.deviceType
        trust := .legacy
        identityKeyB64 := none }
      pendingInitiatorPeer := none }
  | none, none => ipc

/--
The closure of `onChange(of: daemon.wtSessionActive)`.
-/
def onWtSessionActive (ipc : IpcManager) (wtSessionActive : Bool) (wtSessionSAS : Option String) :
    IpcManager :=
  let ipc :=
    if wtSessionActive ∧ ipc.sessionPhase = .connecting then
      applyWtVerificationCode (resolveWtPeer ipc.markConnected.2) wtSessionSAS
    else
      ipc
  if !wtSessionActive ∧ ipc.sessionPhase = .connected then
    ipc.disconnectSession "WT session ended"
  else
    ipc

def acceptedPeer (peerCode deviceName deviceType : String) : PeerSession where
  peerCode
  deviceName
  deviceType
  trust := .legacy
  identityKeyB64 := none

/--
What the Accept button does to the session manager; the flag tells whether the request was still
open.
-/
def accept (ipc : IpcManager) (peerCode deviceName deviceType : String) : Bool × IpcManager :=
  let ipc := { ipc with pendingAcceptPeer := some (acceptedPeer peerCode deviceName deviceType) }
  let (connecting, ipc) := ipc.beginConnecting
  if connecting then
    (true, ipc)
  else
    -- the request was withdrawn before the button was pressed
    (false, { ipc with pendingAcceptPeer := none })

end ContentView

end LocalBolt
