import LocalBolt.JsonText.Print
import LocalBolt.Rendezvous.Impl.Wire

/-!
This module contains the signaling messages as the texts that go over the WebSocket: what `to_string` of
`serde_json` writes for a message, with its fields in the order of their declaration, and what `from_str`
makes of a text.
-/

namespace LocalBolt

namespace Rendezvous

/-! ### Writing -/

/--
A field with `skip_serializing_if = "Option::is_none"`.
-/
def optionalMember (key : String) : Option String → Dict
  | some s => [(key, .str s)]
  | none => []

def peerMembers (peerCode deviceName : String) (deviceType : DeviceType)
    (wtUrl wtCertHash : Option String) : Dict :=
  [("peer_code", .str peerCode), ("device_name", .str deviceName),
    ("device_type", .str deviceType.serialize)]
    ++ optionalMember "wt_url" wtUrl ++ optionalMember "wt_cert_hash" wtCertHash

def PeerData.document (p : PeerData) : Json :=
  .obj (peerMembers p.peerCode p.deviceName p.deviceType p.wtUrl p.wtCertHash)

/--
The members of a message after its tag.
-/
def ClientMessage.members : ClientMessage → Dict
  | .register peerCode deviceName deviceType wtUrl wtCertHash =>
    peerMembers peerCode deviceName deviceType wtUrl wtCertHash
  | .signal target payload | .manualSignal target payload => [("to", .str target), ("payload", payload)]
  | .ping => []

def ClientMessage.tag : ClientMessage → String
  | .register .. => "register"
  | .signal .. => "signal"
  | .manualSignal .. => "manual_signal"
  | .ping => "ping"

def ServerMessage.members : ServerMessage → Dict
  | .peers existingPeers => [("peers", .arr (existingPeers.map PeerData.document))]
  | .peerJoined peer => [("peer", peer.document)]
  | .peerLeft peerCode => [("peer_code", .str peerCode)]
  | .signal fromPeer payload => [("from", .str fromPeer), ("payload", payload)]
  | .error message => [("message", .str message)]

def ServerMessage.tag : ServerMessage → String
  | .peers _ => "peers"
  | .peerJoined _ => "peer_joined"
  | .peerLeft _ => "peer_left"
  | .signal .. => "signal"
  | .error _ => "error"

/--
The value of an enum with `tag = "type"`: its tag comes first.
-/
def tagged (tag : String) (members : Dict) : Json := .obj (("type", .str tag) :: members)

def ClientMessage.document (m : ClientMessage) : Json := tagged m.tag m.members

def ServerMessage.document (m : ServerMessage) : Json := tagged m.tag m.members

section

variable (spell : ℚ → List Char)

/--
`spell` is how `serde_json` writes a number.
-/
def ClientMessage.toText (m : ClientMessage) : List Char := JsonText.print spell m.document

def ServerMessage.toText (m : ServerMessage) : List Char := JsonText.print spell m.document

end

/-! ### Reading -/

section

variable (ofNumber : List Char → Option ℚ)

/--
The members of an object in the order in which they stand in the text, which holds nothing else.
-/
def objectText (text : List Char) : Option Dict := do
  let text ← JsonText.expect '\x7b' text
  match JsonText.expect '\x7d' text with
  | some rest => if (JsonText.skipWhitespace rest).isEmpty then some [] else none
  | none => do
    let (ms, rest) ← JsonText.members ofNumber (JsonText.recursionLimit - 1) (2 * text.length + 1) text
    if (JsonText.skipWhitespace rest).isEmpty then some ms else none

/--
A field that comes twice is an error, one that nothing knows is not.
-/
def occursOnce (ms : Dict) (key : String) : Bool := (ms.map (·.1)).count key ≤ 1

/--
The names that the variant with the tag of `ms` declares.
-/
def ClientMessage.declared (ms : Dict) : List String :=
  match ms.string? "type" with
  | some "register" => ["peer_code", "device_name", "device_type", "wt_url", "wt_cert_hash"]
  | some "signal" | some "manual_signal" => ["to", "payload"]
  | _ => []

def ServerMessage.declared (ms : Dict) : List String :=
  match ms.string? "type" with
  | some "peers" => ["peers"]
  | some "peer_joined" => ["peer"]
  | some "peer_left" => ["peer_code"]
  | some "signal" => ["from", "payload"]
  | some "error" => ["message"]
  | _ => []

def ClientMessage.fromText (text : List Char) : Option ClientMessage := do
  let ms ← objectText ofNumber text
  if ("type" :: declared ms).all (occursOnce ms) then visitMap ms else none

def ServerMessage.fromText (text : List Char) : Option ServerMessage := do
  let ms ← objectText ofNumber text
  if ("type" :: declared ms).all (occursOnce ms) then visitMap ms else none

/--
`serde_json::from_str::<ClientMessage>`, with `describe` for the text of its errors.
-/
def ClientMessage.fromStr (describe : String → String) (text : String) :
    Except String ClientMessage :=
  match fromText ofNumber text.toList with
  | some m => .ok m
  | none => .error (describe text)

end

end Rendezvous

end LocalBolt
