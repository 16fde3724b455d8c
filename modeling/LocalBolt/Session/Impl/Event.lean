import LocalBolt.Session.Impl.Basic

/-!
This module contains the daemon events the session manager reacts to, and how a line of the bridge
is read as one, with the default of every field that is absent or has the wrong type.
-/

namespace LocalBolt

inductive DaemonEvent where
  | pairingRequest (request : PairingRequest)
  | statusUpdate (connectedPeers : Int)
  | sessionConnected (remotePeerId : Option String)
  | sessionSas (sas : Option String) (remoteIdentityPkB64 : Option String)
  | sessionEnded (reason : String)
  | sessionError (reason : String)
  | transferStarted (fileName transferId direction : String) (fileSizeBytes : UInt64)
  | transferProgress (progress : ℚ) (transferId : String)
  | transferComplete (fileName : String) (savePath : Option String)
  | transferError (fileName reason : String)
  | transferPaused
  | transferResumed
  | transferRequest
  | bridgeDisconnected
  | other
  deriving DecidableEq

namespace DaemonEvent

def ofPayload (event : String) (payload : Dict) : DaemonEvent :=
  match event with
  | "daemon://pairing-request" =>
    .pairingRequest {
      requestId := (payload.string? "request_id").getD ""
      deviceName := (payload.string? "remote_device_name").getD "Unknown Device"
      deviceType := (payload.string? "remote_device_type").getD "desktop"
      sas := (payload.string? "sas").getD ""
    }
  | "daemon://status-update" => .statusUpdate ((payload.int? "connected_peers").getD 0)
  | "daemon://session-connected" => .sessionConnected (payload.string? "remote_peer_id")
  | "daemon://session-sas" =>
    .sessionSas (payload.string? "sas") (payload.string? "remote_identity_pk_b64")
  | "daemon://session-ended" => .sessionEnded ((payload.string? "reason").getD "unknown")
  | "daemon://session-error" => .sessionError ((payload.string? "reason").getD "unknown")
  | "daemon://transfer-started" =>
    .transferStarted
      ((payload.string? "file_name").getD "file")
      ((payload.string? "transfer_id").getD "")
      ((payload.string? "direction").getD "send")
      (((payload.number? "file_size_bytes").map uint64Value).getD 0)
  | "daemon://transfer-progress" =>
    .transferProgress
      ((payload.number? "progress").getD 0)
      ((payload.string? "transfer_id").getD "")
  | "daemon://transfer-complete" =>
    .transferComplete ((payload.string? "file_name").getD "file") (payload.string? "save_path")
  | "daemon://transfer-error" =>
    .transferError
      ((payload.string? "file_name").getD "file")
      ((payload.string? "reason").getD "unknown")
  | "daemon://transfer-paused" => .transferPaused
  | "daemon://transfer-resumed" => .transferResumed
  | "daemon://transfer-request" => .transferRequest
  | "daemon://bridge-disconnected" => .bridgeDisconnected
  | _ => .other

/--
`none` for a line that is skipped: no JSON object, or one without an event name.
-/
def ofLine (line : Json) : Option DaemonEvent := do
  let json ← line.object?
  let event ← json.string? "event"
  some (ofPayload event ((json.object? "payload").getD []))

end DaemonEvent

def bridgeLine (eventName : String) (payload : Json) : Json :=
  .obj [("event", .str eventName), ("payload", payload)]

@[simp]
theorem DaemonEvent.ofLine_bridgeLine (eventName : String) (payload : Json)
    : ofLine (bridgeLine eventName payload)
        =
      some (ofPayload eventName (payload.object?.getD [])) := by
  simp [ofLine, bridgeLine, Json.object?, Dict.string?, Dict.object?, Dict.get?, List.lookup_cons,
    Json.string?]

end LocalBolt
