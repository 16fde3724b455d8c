import LocalBolt.Rendezvous.Impl.Handler
import LocalBolt.SortedMap.Basic
import Mathlib.Data.String.Basic

/-!
This module contains the wire format of the signaling messages: what the derived implementations of
`Serialize` and `Deserialize` do, as `serde` documents the attributes, between a message and a JSON
value. The members of a JSON object are kept in the order of their names.
-/

namespace LocalBolt

namespace Dict

def serializeField (d : Dict) (key : String) (value : Json) : Dict := SortedMap.insert key value d

/--
A field with `skip_serializing_if = "Option::is_none"`.
-/
def serializeSome (d : Dict) (key : String) (value : Option String) : Dict :=
  match value with
  | some s => d.serializeField key (.str s)
  | none => d

/--
A field of type `Option<String>` with `default`.
-/
def optional? (d : Dict) (key : String) : Option (Option String) :=
  match d.get? key with
  | none | some .null => some none
  | some (.str s) => some (some s)
  | some _ => none

end Dict

namespace Rendezvous

def DeviceType.serialize : DeviceType → String
  | .phone => "phone"
  | .tablet => "tablet"
  | .laptop => "laptop"
  | .desktop => "desktop"

def DeviceType.deserialize : String → Option DeviceType
  | "phone" => some .phone
  | "tablet" => some .tablet
  | "laptop" => some .laptop
  | "desktop" => some .desktop
  | _ => none

/-! ### The fields of a peer -/

/--
The fields that `PeerData` and `Register` declare alike.
-/
def serializePeer (d : Dict) (peerCode deviceName : String) (deviceType : DeviceType)
    (wtUrl wtCertHash : Option String) : Dict :=
  d.serializeField "peer_code" (.str peerCode)
    |>.serializeField "device_name" (.str deviceName)
    |>.serializeField "device_type" (.str deviceType.serialize)
    |>.serializeSome "wt_url" wtUrl
    |>.serializeSome "wt_cert_hash" wtCertHash

def deserializePeer {α : Type} (d : Dict)
    (build : String → String → DeviceType → Option String → Option String → α) : Option α := do
  let peerCode ← d.string? "peer_code"
  let deviceName ← d.string? "device_name"
  let deviceType ← (d.string? "device_type").bind DeviceType.deserialize
  let wtUrl ← d.optional? "wt_url"
  let wtCertHash ← d.optional? "wt_cert_hash"
  some (build peerCode deviceName deviceType wtUrl wtCertHash)

def PeerData.serialize (p : PeerData) : Json :=
  .obj (serializePeer [] p.peerCode p.deviceName p.deviceType p.wtUrl p.wtCertHash)

def PeerData.visitMap (d : Dict) : Option PeerData := deserializePeer d PeerData.mk

def PeerData.deserialize (value : Json) : Option PeerData := value.object?.bind PeerData.visitMap

/-! ### Messages -/

def ClientMessage.serialize : ClientMessage → Json
  | .register peerCode deviceName deviceType wtUrl wtCertHash =>
    .obj (serializePeer (Dict.serializeField [] "type" (.str "register")) peerCode deviceName deviceType
      wtUrl wtCertHash)
  | .signal target payload =>
    .obj (Dict.serializeField [] "type" (.str "signal")
      |>.serializeField "to" (.str target)
      |>.serializeField "payload" payload)
  | .manualSignal target payload =>
    .obj (Dict.serializeField [] "type" (.str "manual_signal")
      |>.serializeField "to" (.str target)
      |>.serializeField "payload" payload)
  | .ping => .obj (Dict.serializeField [] "type" (.str "ping"))

def ClientMessage.visitMap (d : Dict) : Option ClientMessage :=
  match d.string? "type" with
  | some "register" => deserializePeer d .register
  | some "signal" => do
    let target ← d.string? "to"
    let payload ← d.get? "payload"
    some (.signal target payload)
  | some "manual_signal" => do
    let target ← d.string? "to"
    let payload ← d.get? "payload"
    some (.manualSignal target payload)
  | some "ping" => some .ping
  | _ => none

def ClientMessage.deserialize (value : Json) : Option ClientMessage :=
  value.object?.bind ClientMessage.visitMap

def ServerMessage.serialize : ServerMessage → Json
  | .peers existingPeers =>
    .obj (Dict.serializeField [] "type" (.str "peers")
      |>.serializeField "peers" (.arr (existingPeers.map PeerData.serialize)))
  | .peerJoined peer =>
    .obj (Dict.serializeField [] "type" (.str "peer_joined")
      |>.serializeField "peer" peer.serialize)
  | .peerLeft peerCode =>
    .obj (Dict.serializeField [] "type" (.str "peer_left")
      |>.serializeField "peer_code" (.str peerCode))
  | .signal fromPeer payload =>
    .obj (Dict.serializeField [] "type" (.str "signal")
      |>.serializeField "from" (.str fromPeer)
      |>.serializeField "payload" payload)
  | .error message =>
    .obj (Dict.serializeField [] "type" (.str "error")
      |>.serializeField "message" (.str message))

/--
A field of type `Vec<PeerData>`.
-/
def deserializePeers : Json → Option (List PeerData)
  | .arr values => values.mapM PeerData.deserialize
  | _ => none

def ServerMessage.visitMap (d : Dict) : Option ServerMessage :=
  match d.string? "type" with
  | some "peers" => do
    let existingPeers ← (d.get? "peers").bind deserializePeers
    some (.peers existingPeers)
  | some "peer_joined" => do
    let peer ← (d.get? "peer").bind PeerData.deserialize
    some (.peerJoined peer)
  | some "peer_left" => do
    let peerCode ← d.string? "peer_code"
    some (.peerLeft peerCode)
  | some "signal" => do
    let fromPeer ← d.string? "from"
    let payload ← d.get? "payload"
    some (.signal fromPeer payload)
  | some "error" => do
    let message ← d.string? "message"
    some (.error message)
  | _ => none

def ServerMessage.deserialize (value : Json) : Option ServerMessage :=
  value.object?.bind ServerMessage.visitMap

end Rendezvous

end LocalBolt
