import LocalBolt.Cli.Impl.Value
import LocalBolt.Foundation.IpcMessage
import LocalBolt.Session.Impl.Basic
import LocalBolt.Utf8.Slice

/-!
This module contains how the command line client handles a message of the daemon: what it prints, what it
asks its user, and what it answers.
-/

namespace LocalBolt

namespace Cli

abbrev Decision := PairingDecision

structure PairingRequestPayload where
  requestId : String
  remoteDeviceName : String
  remoteDeviceType : String
  sas : String
  capabilitiesRequested : List String

structure TransferIncomingRequestPayload where
  requestId : String
  fromDeviceName : String
  fileName : String
  fileSizeBytes : UInt64

/--
The payload of `PairingDecisionPayload` and of `TransferIncomingDecisionPayload`.
-/
structure DecisionPayload where
  requestId : String
  decision : Decision
  note : Option String

/--
What the client does to the world. A line that is printed is given without its end; reading a line gives
it with its end, or fails.
-/
inductive Effect where
  | out (line : String)
  | err (line : String)
  | prompt (text : String)
  | readLine (input : Option String)
  | write (msg : IpcMessage Value)

def reads (effects : List Effect) : List (Option String) :=
  effects.filterMap fun | .readLine input => some input | _ => none

def writes (effects : List Effect) : List (IpcMessage Value) :=
  effects.filterMap fun | .write msg => some msg | _ => none

/--
The world, and the code that the client rests on: `serde_json` with the derived implementations, and the
formatting of standard types. `stdin n` is what the `n`-th call of `read_line` gives, which is the empty
line from the end of the input on, and `write n` the error of the `n`-th message written, if it fails.
-/
structure Env where
  stdin : Nat → Option String
  write : Nat → Option String
  fromStr : String → Except String (IpcMessage Value)
  pairingRequest : Value → Option PairingRequestPayload
  transferRequest : Value → Option TransferIncomingRequestPayload
  pairingDecision : DecisionPayload → Option Value
  transferDecision : DecisionPayload → Option Value
  display : Value → String
  debug : List String → String
  tenths : Float → String

/--
How many lines have been read from the user, and how many messages written.
-/
structure Console where
  reads : Nat
  writes : Nat

namespace Console

def start : Console where
  reads := 0
  writes := 0

def after (c : Console) (effects : List Effect) : Console where
  reads := c.reads + (Cli.reads effects).length
  writes := c.writes + (Cli.writes effects).length

end Console

/-! ### Texts -/

/--
`char::is_whitespace`: the Unicode property `White_Space`.
-/
def isWhitespace (c : Char) : Bool :=
  let n := c.toNat
  (0x09 ≤ n && n ≤ 0x0D) || n = 0x20 || n = 0x85 || n = 0xA0 || n = 0x1680 ||
    (0x2000 ≤ n && n ≤ 0x200A) || n = 0x2028 || n = 0x2029 || n = 0x202F || n = 0x205F || n = 0x3000

def trim (text : String) : String :=
  .ofList ((text.toList.dropWhile isWhitespace).reverse.dropWhile isWhitespace).reverse

def toAsciiLowercase (text : String) : String := .ofList (text.toList.map Char.toLower)

def eqIgnoreAsciiCase (a b : String) : Bool := toAsciiLowercase a = toAsciiLowercase b

/--
`{:>width}`
-/
def alignRight (width : Nat) (text : String) : String :=
  .ofList (List.replicate (width - text.length) ' ') ++ text

def formatBytes (env : Env) (bytes : UInt64) : String :=
  let kb : UInt64 := 1024
  let mb : UInt64 := 1024 * kb
  let gb : UInt64 := 1024 * mb
  if gb ≤ bytes then env.tenths (bytes.toFloat / gb.toFloat) ++ " GB"
  else if mb ≤ bytes then env.tenths (bytes.toFloat / mb.toFloat) ++ " MB"
  else if kb ≤ bytes then env.tenths (bytes.toFloat / kb.toFloat) ++ " KB"
  else toString bytes ++ " B"

/-! ### Prompts -/

def parsePairingChoice (input : String) : Decision :=
  match toAsciiLowercase (trim input) with
  | "y" | "yes" => .allowOnce
  | "a" | "always" => .allowAlways
  | "d" | "never" => .denyAlways
  | _ => .denyOnce

def pairingChoice : Option String → Decision
  | some input => parsePairingChoice input
  | none => .denyOnce

def transferChoice : Option String → Decision
  | some input => if eqIgnoreAsciiCase (trim input) "y" then .allowOnce else .denyOnce
  | none => .denyOnce

def label (decision : Decision) (refused : String) : String :=
  if decision = .allowOnce then "accepted" else refused

/--
`write_message`, whose error is only reported.
-/
def writeMessage (env : Env) (c : Console) (msg : IpcMessage Value) (report : String) : List Effect :=
  .write msg ::
    match env.write c.writes with
    | some e => [.err (report ++ e)]
    | none => []

def pairingRequestEvent (env : Env) (c : Console) (req : PairingRequestPayload) : Option (List Effect) := do
  let sas := if req.sas.isEmpty then [] else [.out ("          SAS: " ++ req.sas)]
  let input := env.stdin c.reads
  let decision := pairingChoice input
  let payload ← env.pairingDecision { requestId := req.requestId, decision, note := none }
  let response := .newDecision "pairing.decision" payload
  some <|
    [.out ("[pairing] request from " ++ req.remoteDeviceName ++ " (" ++ req.remoteDeviceType ++ ")")] ++
      sas ++
      [.out ("          capabilities: " ++ env.debug req.capabilitiesRequested),
        .prompt "          Accept? [y] once  [a] always  [N] no  [d] never: ",
        .readLine input] ++
      writeMessage env c response "[localbolt-cli] failed to send pairing decision: " ++
      [.out ("[pairing] " ++ label decision "denied")]

def transferRequestEvent (env : Env) (c : Console) (req : TransferIncomingRequestPayload)
    : Option (List Effect) := do
  let size := formatBytes env req.fileSizeBytes
  let input := env.stdin c.reads
  let decision := transferChoice input
  let payload ← env.transferDecision { requestId := req.requestId, decision, note := none }
  let response := .newDecision "transfer.incoming.decision" payload
  some <|
    [.out ("[transfer] incoming: " ++ req.fileName ++ " (" ++ size ++ ") from " ++ req.fromDeviceName),
      .prompt "           Accept? [y/N]: ",
      .readLine input] ++
      writeMessage env c response "[localbolt-cli] failed to send transfer decision: " ++
      [.out ("[transfer] " ++ label decision "declined")]

/-! ### Events -/

def strOr (msg : IpcMessage Value) (key default : String) : String :=
  ((msg.payload.get key).bind Value.asStr).getD default

def u64Or (msg : IpcMessage Value) (key : String) (default : UInt64) : UInt64 :=
  ((msg.payload.get key).bind Value.asU64).getD default

def boolOr (msg : IpcMessage Value) (key : String) (default : Bool) : Bool :=
  ((msg.payload.get key).bind Value.asBool).getD default

def versionStatusEvent (msg : IpcMessage Value) : List Effect :=
  let version := strOr msg "daemon_version" "?"
  if boolOr msg "compatible" false then
    [.out ("[daemon] version handshake OK (daemon " ++ version ++ ")")]
  else
    [.err ("[daemon] version INCOMPATIBLE (daemon " ++ version ++ ")")]

def sessionConnectedEvent (msg : IpcMessage Value) : Option (List Effect) := do
  let peer := (strOr msg "remote_peer_id" "?").toList
  let shown ← Utf8.sliceTo? peer (min (Utf8.len peer) 12)
  some [.out ("[session] peer connected: " ++ .ofList shown)]

def transferStartedEvent (env : Env) (msg : IpcMessage Value) : List Effect :=
  let name := strOr msg "file_name" "?"
  let size := u64Or msg "file_size_bytes" 0
  let dir := strOr msg "direction" "?"
  [.out ("[transfer] started: " ++ name ++ " (" ++ formatBytes env size ++ ") [" ++ dir ++ "]")]

def transferProgressEvent (env : Env) (msg : IpcMessage Value) : List Effect :=
  let progress := ((msg.payload.get "progress").bind Value.asF64).getD 0.0
  let transferred := u64Or msg "bytes_transferred" 0
  let total := u64Or msg "total_bytes" 0
  let pct := (progress * 100.0).toUInt32
  [.prompt ("\r[transfer] " ++ alignRight 3 (toString pct) ++ "% (" ++ formatBytes env transferred ++
    " / " ++ formatBytes env total ++ ")")] ++ if 100 ≤ pct then [.err ""] else []

def transferCompleteEvent (msg : IpcMessage Value) : List Effect :=
  let name := strOr msg "file_name" "?"
  let status := if boolOr msg "verified" false then "verified" else "UNVERIFIED"
  [.out ("[transfer] complete: " ++ name ++ " (" ++ status ++ ")")]

/--
`none` if it panics.
-/
def handleEvent (env : Env) (c : Console) (msg : IpcMessage Value) : Option (List Effect) :=
  match msg.msgType with
  | "version.status" => some (versionStatusEvent msg)
  | "daemon.status" =>
    some [.out ("[daemon] status: version=" ++ strOr msg "version" "?" ++ ", connected_peers=" ++
      toString (u64Or msg "connected_peers" 0))]
  | "session.connected" => sessionConnectedEvent msg
  | "session.sas" =>
    some [.out ("[session] SAS verification code: " ++ strOr msg "sas" "?"),
      .out "          Verify this code matches the other device."]
  | "session.ended" => some [.out ("[session] ended: " ++ strOr msg "reason" "unknown")]
  | "session.error" => some [.err ("[session] ERROR: " ++ strOr msg "reason" "unknown")]
  | "pairing.request" =>
    match env.pairingRequest msg.payload with
    | some req => pairingRequestEvent env c req
    | none => some []
  | "transfer.incoming.request" =>
    match env.transferRequest msg.payload with
    | some req => transferRequestEvent env c req
    | none => some []
  | "transfer.started" => some (transferStartedEvent env msg)
  | "transfer.progress" => some (transferProgressEvent env msg)
  | "transfer.complete" => some (transferCompleteEvent msg)
  | "transfer.paused" => some [.out "[transfer] paused"]
  | "transfer.resumed" => some [.out "[transfer] resumed"]
  | _ =>
    if msg.kind = .event then some [.out ("[event] " ++ msg.msgType ++ ": " ++ env.display msg.payload)]
    else some []

end Cli

end LocalBolt
