import LocalBolt.Foundation.Json
import LocalBolt.Framing.Basic
import LocalBolt.Machine.Basic

/-!
This module contains the signaling half of the Rust bridge: the callback that collects discovery
events, and the C functions through which the shell reads what was collected.
-/

namespace LocalBolt

namespace Bridge

inductive Plane where
  | localPlane
  | cloudPlane
  deriving DecidableEq

structure PeerInfo where
  peerCode : String
  deviceName : String
  deviceType : String
  wtUrl : Option String
  wtCertHash : Option String
  deriving DecidableEq

structure Signal where
  fromPeer : String
  signalType : String
  data : Json
  deriving DecidableEq

inductive DiscoveryEvent where
  | peerList (list : List PeerInfo) (plane : Plane)
  | peerJoined (peer : PeerInfo) (plane : Plane)
  | peerLeft (code : String) (plane : Plane)
  | connected (plane : Plane)
  | disconnected (reason : String) (plane : Plane)
  | signal (sig : Signal) (plane : Plane)
  | error (msg : String)
  deriving DecidableEq

inductive SignalingEventInternal where
  | peerJoined (peer : PeerInfo) (plane : Plane)
  | peerLeft (code : String) (plane : Plane)
  | connected (plane : Plane)
  | disconnected (reason : String) (plane : Plane)
  deriving DecidableEq

/--
A peer as C code sees it, with `none` for a null pointer.
-/
structure BoltPeer where
  peerCode : Option String
  deviceName : Option String
  deviceType : Option String
  wtUrl : Option String
  wtCertHash : Option String
  deriving DecidableEq

structure BoltSignaling where
  peerCode : String
  events : List SignalingEventInternal
  peers : List PeerInfo
  connected : Bool
  incomingSignals : List String
  deriving DecidableEq

/--
`CString::new`, which refuses a text with a NUL in it.
-/
def cString? (s : String) : Option String := if Char.ofNat 0 ∈ s.toList then none else some s

theorem cString?_joinLines {lines : List String} (h : ∀ line ∈ lines, Char.ofNat 0 ∉ line.toList) :
    cString? (Framing.joinLines lines) = some (Framing.joinLines lines) := by
  apply if_neg
  intro hmem
  rcases Framing.mem_joinLines hmem with hnewline | ⟨line, hline, hnul⟩
  . exact absurd hnewline (by decide)
  . exact h line hline hnul

def drainQueue (queue : List String) : Option String × List String :=
  if queue.isEmpty then (none, queue) else (cString? (Framing.joinLines queue), [])

def Signal.toValue (sig : Signal) : Json :=
  .obj [("from", .str sig.fromPeer), ("signal_type", .str sig.signalType), ("data", sig.data)]

def BoltPeer.ofInfo (peer : PeerInfo) : BoltPeer where
  peerCode := cString? peer.peerCode
  deviceName := cString? peer.deviceName
  deviceType := cString? peer.deviceType
  wtUrl := peer.wtUrl.bind cString?
  wtCertHash := peer.wtCertHash.bind cString?

namespace BoltSignaling

def start (peerCode : String) : BoltSignaling where
  peerCode
  events := []
  peers := []
  connected := false
  incomingSignals := []

def isListed (peers : List PeerInfo) (code : String) : Bool :=
  peers.any fun existing => existing.peerCode = code

def pushEvent (s : BoltSignaling) (event : SignalingEventInternal) : BoltSignaling :=
  { s with events := s.events ++ [event] }

def mergePeer (s : BoltSignaling) (peer : PeerInfo) : BoltSignaling :=
  if peer.peerCode ≠ s.peerCode ∧ ¬ isListed s.peers peer.peerCode then
    { s with peers := s.peers ++ [peer] }
  else
    s

/--
The event callback of `bolt_signaling_start`, where `toJson` is `serde_json::to_string`.
-/
def callback (toJson : Json → Option String) (s : BoltSignaling) : DiscoveryEvent → BoltSignaling
  | .peerList list _ => list.foldl mergePeer s
  | .peerJoined peer plane =>
    if peer.peerCode ≠ s.peerCode then (s.mergePeer peer).pushEvent (.peerJoined peer plane) else s
  | .peerLeft code plane =>
    { s with peers := s.peers.filter fun peer => peer.peerCode ≠ code }.pushEvent
      (.peerLeft code plane)
  | .connected plane => { s with connected := true }.pushEvent (.connected plane)
  | .disconnected reason plane => s.pushEvent (.disconnected reason plane)
  | .signal sig _ =>
    match toJson sig.toValue with
    | some json => { s with incomingSignals := s.incomingSignals ++ [json] }
    | none => s
  | .error _ => s

def peerCount (s : BoltSignaling) : UInt32 := .ofNat s.peers.length

def getPeer (s : BoltSignaling) (index : UInt32) : Option BoltPeer :=
  s.peers[index.toNat]?.map .ofInfo

def isConnected (s : BoltSignaling) : Int32 := if s.connected then 1 else 0

def drainEvents (s : BoltSignaling) : UInt32 × BoltSignaling :=
  (.ofNat s.events.length, { s with events := [] })

def drainSignals (s : BoltSignaling) : Option String × BoltSignaling :=
  let (joined, incomingSignals) := drainQueue s.incomingSignals
  (joined, { s with incomingSignals })

inductive Action where
  | event (event : DiscoveryEvent)
  | drainEvents
  | drainSignals

def next (toJson : Json → Option String) (s : BoltSignaling) : Action → BoltSignaling
  | .event event => s.callback toJson event
  | .drainEvents => s.drainEvents.2
  | .drainSignals => s.drainSignals.2

def machine (toJson : Json → Option String) (peerCode : String) : Machine BoltSignaling Action :=
  .ofFun (.start peerCode) fun s action => some (s.next toJson action)

end BoltSignaling

end Bridge

end LocalBolt
