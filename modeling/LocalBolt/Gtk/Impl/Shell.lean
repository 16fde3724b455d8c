import LocalBolt.Cli.Impl.HandleEvent
import LocalBolt.Machine.Basic

/-!
This module contains the GTK shell: the events that are queued for its main loop, what the loop shows for
each of them, and the dialogs in which the user answers the requests of the daemon.
-/

namespace LocalBolt

namespace Gtk

open Cli (Value Decision DecisionPayload PairingRequestPayload TransferIncomingRequestPayload)

/--
What the shell rests on: `serde_json` with the derived implementations, and `{:.1}`.
-/
structure Env where
  pairingRequest : Value → Option PairingRequestPayload
  transferRequest : Value → Option TransferIncomingRequestPayload
  pairingDecision : DecisionPayload → Option Value
  transferDecision : DecisionPayload → Option Value
  tenths : Float → String

/-! ### Dialogs -/

inductive ResponseAppearance where
  | default
  | suggested
  | destructive

structure Response where
  id : String
  label : String
  appearance : ResponseAppearance

structure AlertDialog where
  heading : String
  body : String
  responses : List Response
  defaultResponse : String
  closeResponse : String

/--
What the closure of a dialog holds.
-/
inductive Request where
  | pairing (req : PairingRequestPayload)
  | transfer (req : TransferIncomingRequestPayload)

def units : List String := ["B", "KB", "MB", "GB", "TB"]

def scale (size : Float) (unit : Nat) : Float × Nat :=
  if 1024.0 ≤ size ∧ unit < units.length - 1 then scale (size / 1024.0) (unit + 1) else (size, unit)
termination_by units.length - 1 - unit
decreasing_by omega

def humanSize (env : Env) (bytes : UInt64) : String :=
  let (size, unit) := scale bytes.toFloat 0
  if unit = 0 then toString bytes ++ " " ++ units[0] else env.tenths size ++ " " ++ units.getD unit ""

def pairingDialog (req : PairingRequestPayload) : AlertDialog where
  heading := "Connection request"
  body :=
    if req.sas.isEmpty then
      req.remoteDeviceName ++ " wants to connect."
    else
      req.remoteDeviceName ++ " wants to connect.\n\nConfirm this code matches on both screens:\n\n" ++ req.sas
  responses := [
    ⟨"decline_always", "Never", .destructive⟩,
    ⟨"decline", "Decline", .destructive⟩,
    ⟨"accept_always", "Always Allow", .default⟩,
    ⟨"accept", "Connect Once", .suggested⟩
  ]
  defaultResponse := "accept"
  closeResponse := "decline"

def transferDialog (env : Env) (req : TransferIncomingRequestPayload) : AlertDialog where
  heading := "Incoming file"
  body :=
    req.fromDeviceName ++ " wants to send you:\n\n" ++ req.fileName ++ "  (" ++
      humanSize env req.fileSizeBytes ++ ")"
  responses := [
    ⟨"decline", "Decline", .default⟩,
    ⟨"accept", "Accept", .suggested⟩
  ]
  defaultResponse := "accept"
  closeResponse := "decline"

def pairingDecisionForResponse (response : String) : Decision :=
  match response with
  | "accept" => .allowOnce
  | "accept_always" => .allowAlways
  | "decline_always" => .denyAlways
  | _ => .denyOnce

def transferDecisionForResponse (response : String) : Decision :=
  if response = "accept" then .allowOnce else .denyOnce

namespace Request

def decision (r : Request) (response : String) : Decision :=
  match r with
  | .pairing _ => pairingDecisionForResponse response
  | .transfer _ => transferDecisionForResponse response

/--
What the closure sends.
-/
def answer (env : Env) (r : Request) (response : String) : IpcMessage Value :=
  match r with
  | .pairing req =>
    let payload := { requestId := req.requestId, decision := pairingDecisionForResponse response, note := none }
    .newDecision "pairing.decision" ((env.pairingDecision payload).getD .null)
  | .transfer req =>
    let payload := { requestId := req.requestId, decision := transferDecisionForResponse response, note := none }
    .newDecision "transfer.incoming.decision" ((env.transferDecision payload).getD .null)

end Request

/-! ### The shell -/

structure StatusPage where
  title : String
  description : String
  iconName : String

structure ProgressBar where
  fraction : Float
  text : String
  visible : Bool

/--
A dialog that is on the screen.
-/
structure Presented where
  alert : AlertDialog
  request : Request

/--
`queue` is the channel from the threads of the daemon's lifecycle to the main loop. `sent` lists the
messages handed to the bridge, and `errors` the lines about those that it did not take.
-/
structure Shell where
  queue : List (String × Value)
  status : StatusPage
  progress : ProgressBar
  dialogs : List Presented
  sent : List (IpcMessage Value)
  errors : List String
  shutdown : Bool

/--
The user may answer the dialogs in any order, and a dialog that is closed answers with its close response.
-/
inductive Action where
  | bridgeEvent (name : String) (payload : Value)
  | watchdogEvent (state : String)
  | handle
  | respond (index : Nat) (response : String) (failure : Option String)
  | closeRequest

/--
`f64::clamp`
-/
def clamp (x min max : Float) : Float :=
  let x := if x < min then min else x
  if max < x then max else x

def idle (title description : String) : StatusPage where
  title
  description
  iconName := "network-wireless-symbolic"

def fileName (payload : Value) : String := ((payload.get "file_name").bind Value.asStr).getD "file"

namespace Shell

def start : Shell where
  queue := []
  status := {
    title := "Starting…",
    description := "Launching the LocalBolt engine",
    iconName := "network-transmit-receive-symbolic"
  }
  progress := { fraction := 0.0, text := "", visible := false }
  dialogs := []
  sent := []
  errors := []
  shutdown := false

def showPairingDialog (s : Shell) (req : PairingRequestPayload) : Shell :=
  { s with dialogs := s.dialogs ++ [{ alert := pairingDialog req, request := .pairing req }] }

def showTransferDialog (env : Env) (s : Shell) (req : TransferIncomingRequestPayload) : Shell :=
  { s with dialogs := s.dialogs ++ [{ alert := transferDialog env req, request := .transfer req }] }

def transferStarted (s : Shell) (payload : Value) : Shell :=
  let file := fileName payload
  { s with
    status := { title := "Receiving…", description := file, iconName := "folder-download-symbolic" }
    progress := { fraction := 0.0, text := file, visible := true } }

def transferComplete (s : Shell) (payload : Value) : Shell :=
  let received := idle "Received" ("Saved " ++ fileName payload ++ " to your Downloads")
  { s with
    progress := { s.progress with visible := false }
    status := { received with iconName := "emblem-ok-symbolic" } }

/--
One round of the main loop.
-/
def handleEvent (env : Env) (s : Shell) (name : String) (payload : Value) : Shell :=
  match name with
  | "watchdog" =>
    if (payload.get "state").bind Value.asStr = some "Ready" then
      { s with status := idle "Ready" "Waiting for a device to connect" }
    else
      s
  | "daemon://pairing-request" =>
    match env.pairingRequest payload with
    | some req => s.showPairingDialog req
    | none => s
  | "daemon://transfer-request" =>
    match env.transferRequest payload with
    | some req => s.showTransferDialog env req
    | none => s
  | "daemon://session-connected" => { s with status := idle "Connected" "Secure channel established" }
  | "daemon://transfer-started" => s.transferStarted payload
  | "daemon://transfer-progress" =>
    match (payload.get "progress").bind Value.asF64 with
    | some f => { s with progress := { s.progress with fraction := clamp f 0.0 1.0 } }
    | none => s
  | "daemon://transfer-complete" => s.transferComplete payload
  | "daemon://transfer-error" | "daemon://session-error" =>
    { s with
      progress := { s.progress with visible := false }
      status := idle "Something went wrong" "The transfer didn't finish" }
  | _ => s

/--
`send`, whose failure is only reported.
-/
def send (s : Shell) (msg : IpcMessage Value) (failure : Option String) : Shell :=
  { s with
    sent := s.sent ++ [msg]
    errors := s.errors ++
      (failure.map fun e => "[localbolt] failed to send " ++ msg.msgType ++ ": " ++ e).toList }

def next (env : Env) (s : Shell) : Action → Option Shell
  | .bridgeEvent name payload => some { s with queue := s.queue ++ [(name, payload)] }
  | .watchdogEvent state =>
    some { s with queue := s.queue ++ [("watchdog", .object [("state", .string state)])] }
  | .handle =>
    match s.queue with
    | [] => none
    | (name, payload) :: queue => some ({ s with queue }.handleEvent env name payload)
  | .respond index response failure =>
    match s.dialogs[index]? with
    | none => none
    | some d =>
      some ({ s with dialogs := s.dialogs.eraseIdx index }.send (d.request.answer env response) failure)
  | .closeRequest => some { s with shutdown := true }

def machine (env : Env) : Machine Shell Action := .ofFun start (next env)

end Shell

end Gtk

end LocalBolt
