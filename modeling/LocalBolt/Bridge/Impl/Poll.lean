import LocalBolt.App.Impl.SignalingManager
import LocalBolt.Bridge.Impl.Signaling

/-!
This module contains the poll of the signaling manager: how it reads the list of peers across the C
boundary, one call after the other, and what it does with the result.
-/

namespace LocalBolt

namespace Bridge

def BoltPeer.discovered (peer : BoltPeer) : DiscoveredPeer where
  peerCode := peer.peerCode.getD ""
  deviceName := peer.deviceName.getD ""
  deviceType := peer.deviceType.getD ""
  wtUrl := peer.wtUrl
  wtCertHash := peer.wtCertHash

def PeerInfo.discovered (peer : PeerInfo) : DiscoveredPeer := (BoltPeer.ofInfo peer).discovered

/--
The body of the loop in `poll`.
-/
def readPeer (s : BoltSignaling) (updated : List DiscoveredPeer) (index : UInt32) :
    List DiscoveredPeer :=
  match s.getPeer index with
  | some peer => updated ++ [peer.discovered]
  | none => updated

/-! ### A poll among discovery events -/

structure PeerPoll where
  bridge : BoltSignaling
  count : UInt32
  index : UInt32
  updated : List DiscoveredPeer

namespace PeerPoll

inductive Action where
  | event (event : DiscoveryEvent)
  | getPeer

def start (s : BoltSignaling) : PeerPoll where
  bridge := s
  count := s.peerCount
  index := 0
  updated := []

def next (toJson : Json → Option String) (p : PeerPoll) : Action → Option PeerPoll
  | .event event =>
    if p.index < p.count then some { p with bridge := p.bridge.callback toJson event } else none
  | .getPeer =>
    if p.index < p.count then
      some { p with index := p.index + 1, updated := readPeer p.bridge p.updated p.index }
    else
      none

def machine (toJson : Json → Option String) (s : BoltSignaling) : Machine PeerPoll Action :=
  .ofFun (start s) (next toJson)

end PeerPoll

/-! ### Polls that nothing interrupts -/

def readPeers (s : BoltSignaling) : List DiscoveredPeer :=
  (List.range s.peerCount.toNat).foldl (fun updated i => readPeer s updated (.ofNat i)) []

structure Discovery where
  bridge : BoltSignaling
  manager : SignalingManager

namespace Discovery

inductive Action where
  | event (event : DiscoveryEvent)
  | poll

def start (peerCode : String) : Discovery where
  bridge := .start peerCode
  manager := { peerCode }

def poll (s : Discovery) : Discovery :=
  let isConnected := s.bridge.isConnected = 1
  let bridge := s.bridge.drainEvents.2
  -- the signals that were drained go to the app and do not touch the peers
  let bridge := bridge.drainSignals.2
  { bridge, manager := s.manager.poll isConnected (readPeers bridge) }

def next (toJson : Json → Option String) (s : Discovery) : Action → Discovery
  | .event event => { s with bridge := s.bridge.callback toJson event }
  | .poll => s.poll

def machine (toJson : Json → Option String) (peerCode : String) : Machine Discovery Action :=
  .ofFun (start peerCode) fun s action => some (s.next toJson action)

end Discovery

end Bridge

end LocalBolt
