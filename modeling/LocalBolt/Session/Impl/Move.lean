import LocalBolt.Machine.Observer
import LocalBolt.Session.Impl.ContentView

/-!
This module contains the session manager as a machine: everything the rest of the app, the user and
the daemon can make it do, one move at a time.
-/

namespace LocalBolt

inductive Move where
  | start (file : Option Json) (connects : Bool)
  | callback (eventName : String) (payload : Json)
  | poll (connected : Bool)
  | event (event : DaemonEvent) (now : Date)
  | beginRequest (peer : DiscoveredPeer)
  | receiveRequest
  | beginConnecting
  | accept (peerCode deviceName deviceType : String)
  | resetSession
  | disconnectSession (reason : String)
  | dismissDisconnect
  | sendPairingDecision (requestId : String) (decision : PairingDecision)
  | dismissRequest
  | markVerified
  | wtSessionActive (active : Bool) (sas : Option String)
  | wtSessionSAS (sas : Option String)
  | clearTransfer
  | sendFile (fileName : String)
  | skip

namespace IpcManager

def callback (m : IpcManager) (eventName : String) (payload : Json) : IpcManager :=
  { m with
    handle := m.handle.map fun b =>
      b.callback { line := bridgeLine eventName payload, emittedIn := m.generation } }

/--
The head of `poll`: the connection flag is read and the queue is drained.
-/
def poll (m : IpcManager) (connected : Bool) : IpcManager :=
  match m.handle with
  | none => m
  | some b => { m with isConnected := connected, handle := some b.drainEvents.2 }

def step (m : IpcManager) : Move → Option IpcManager
  | .start file connects => some (m.start file connects)
  | .callback eventName payload => some (m.callback eventName payload)
  | .poll connected => some (m.poll connected)
  | .event event now => m.handleEvent event now
  | .beginRequest peer => some (m.beginRequest peer).2
  | .receiveRequest => some m.receiveRequest.2
  | .beginConnecting => some m.beginConnecting.2
  | .accept peerCode deviceName deviceType =>
    some (ContentView.accept m peerCode deviceName deviceType).2
  | .resetSession => some m.resetSession
  | .disconnectSession reason => some (m.disconnectSession reason)
  | .dismissDisconnect => some m.dismissDisconnect
  | .sendPairingDecision requestId decision => some (m.sendPairingDecision requestId decision)
  | .dismissRequest => some { m with pendingRequest := none }
  | .markVerified => some m.markVerified
  | .wtSessionActive active sas => some (ContentView.onWtSessionActive m active sas)
  | .wtSessionSAS sas => some (ContentView.applyWtVerificationCode m sas)
  | .clearTransfer => some m.clearTransfer
  | .sendFile fileName => some { m with transferPhase := .sending fileName "pending" 0 }
  | .skip => some m

def machine : Machine IpcManager Move := .ofFun {} step

end IpcManager

end LocalBolt
