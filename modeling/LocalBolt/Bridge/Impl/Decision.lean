import LocalBolt.Foundation.IpcMessage
import LocalBolt.Foundation.Json

/-!
This module contains how a decision of the user goes through the bridge.
-/

namespace LocalBolt

namespace Bridge

/--
What `CStr::from_ptr` finds of a Swift string passed by `withCString`: the text up to its first NUL.
-/
def cStr (s : String) : String := .ofList (s.toList.takeWhile (· ≠ Char.ofNat 0))

/--
`bolt_ipc_send_decision` of a valid handle. The result is the message handed to `send_decision` of the
bridge; there is none when the payload is no JSON. `fromStr` is `serde_json::from_str`.
-/
def boltIpcSendDecision (fromStr : String → Option Json) (msgType payloadJson : String)
    : Option (IpcMessage Json) := do
  let payload ← fromStr (cStr payloadJson)
  some (.newDecision (cStr msgType) payload)

end Bridge

end LocalBolt
