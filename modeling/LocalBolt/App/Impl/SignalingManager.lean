import LocalBolt.Session.Impl.Basic

/-!
This module contains the signaling manager as far as the app state depends on it: the peers it shows
and the incoming request it holds.
-/

namespace LocalBolt

structure IncomingSignal where
  fromPeer : String
  signalType : String
  data : Dict
  deriving DecidableEq

structure SignalingManager where
  isConnected : Bool := false
  peers : List DiscoveredPeer := []
  peerCode : String
  incomingConnectionRequest : Option IncomingSignal := none
  connectionDeclined : Bool := false
  deriving DecidableEq

namespace SignalingManager

/--
The end of `poll`: the list is replaced when its codes have changed.
-/
def poll (m : SignalingManager) (isConnected : Bool) (updated : List DiscoveredPeer) :
    SignalingManager :=
  let m := { m with isConnected }
  if updated.length ≠ m.peers.length ∨ updated.map (·.peerCode) ≠ m.peers.map (·.peerCode) then
    { m with peers := updated }
  else
    m

end SignalingManager

end LocalBolt
