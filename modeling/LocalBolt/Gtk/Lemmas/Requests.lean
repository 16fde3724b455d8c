import LocalBolt.Gtk.Impl.Shell
import LocalBolt.Machine.Flow
import LocalBolt.Machine.Origin
import Mathlib.Data.List.Perm.Basic

/-!
This module contains that the GTK shell answers the requests of the daemon one by one, as its user says.
-/

namespace LocalBolt

namespace Gtk

open Cli (Value)

variable {env : Env}

/-! ### Dialogs -/

/--
What the button with the response says.
-/
def AlertDialog.label? (d : AlertDialog) (response : String) : Option String :=
  (d.responses.find? (·.id = response)).map (·.label)

def allowLabels : List (Option String) := [some "Connect Once", some "Always Allow", some "Accept"]

def alwaysLabels : List (Option String) := [some "Always Allow", some "Never"]

namespace Request

def alert (env : Env) (r : Request) : AlertDialog :=
  match r with
  | .pairing req => pairingDialog req
  | .transfer req => transferDialog env req

/--
The decision is the one on the button.
-/
structure AsLabelled (env : Env) (r : Request) (response : String) : Prop where
  allow : (r.decision response).isAllow = true ↔ (r.alert env).label? response ∈ allowLabels
  always : r.decision response ∈ [PairingDecision.allowAlways, .denyAlways] ↔
    (r.alert env).label? response ∈ alwaysLabels

theorem asLabelled_pairing (req : Cli.PairingRequestPayload) (response : String) :
    (pairing req).AsLabelled env response := by
  by_cases hdecline : response = "decline"
  . subst hdecline
    constructor <;>
      simp [decision, alert, pairingDecisionForResponse, pairingDialog, AlertDialog.label?, allowLabels,
        alwaysLabels, PairingDecision.isAllow]
  . suffices (pairingDecisionForResponse response, (pairingDialog req).label? response) ∈
        [(PairingDecision.allowOnce, some "Connect Once"), (.allowAlways, some "Always Allow"),
          (.denyAlways, some "Never"), (.denyOnce, none)] by
      simp only [List.mem_cons, Prod.mk.injEq, List.not_mem_nil, or_false] at this
      rcases this with h | h | h | h <;>
        constructor <;>
          simp [decision, alert, h, allowLabels, alwaysLabels, PairingDecision.isAllow]
    unfold pairingDecisionForResponse
    split
    . simp [pairingDialog, AlertDialog.label?]
    . simp [pairingDialog, AlertDialog.label?]
    . simp [pairingDialog, AlertDialog.label?]
    . next haccept halways hnever =>
      simp [pairingDialog, AlertDialog.label?, Ne.symm haccept, Ne.symm halways, Ne.symm hnever,
        Ne.symm hdecline]

theorem asLabelled_transfer (req : Cli.TransferIncomingRequestPayload) (response : String) :
    (transfer req).AsLabelled env response := by
  by_cases haccept : response = "accept"
  . subst haccept
    constructor <;>
      simp [decision, alert, transferDecisionForResponse, transferDialog, AlertDialog.label?, allowLabels,
        alwaysLabels, PairingDecision.isAllow]
  . have hdecision : transferDecisionForResponse response = .denyOnce := if_neg haccept
    by_cases hdecline : response = "decline"
    . subst hdecline
      constructor <;>
        simp [decision, alert, hdecision, transferDialog, AlertDialog.label?, allowLabels, alwaysLabels,
          PairingDecision.isAllow]
    . constructor <;>
        simp [decision, alert, hdecision, transferDialog, AlertDialog.label?, allowLabels, alwaysLabels,
          PairingDecision.isAllow, Ne.symm haccept, Ne.symm hdecline]

theorem asLabelled (env : Env) (r : Request) (response : String) : r.AsLabelled env response := by
  cases r with
  | pairing req => exact asLabelled_pairing req response
  | transfer req => exact asLabelled_transfer req response

end Request

/--
The request that an event makes, if it is well formed.
-/
def request? (env : Env) (event : String × Value) : Option Request :=
  match event.1 with
  | "daemon://pairing-request" => (env.pairingRequest event.2).map .pairing
  | "daemon://transfer-request" => (env.transferRequest event.2).map .transfer
  | _ => none

namespace Request

def requestId (r : Request) : String :=
  match r with
  | .pairing req => req.requestId
  | .transfer req => req.requestId

/--
The message that says what was decided about the request.
-/
def decided (env : Env) (r : Request) (decision : Cli.Decision) : IpcMessage Value :=
  let payload := { requestId := r.requestId, decision, note := none }
  match r with
  | .pairing _ => .newDecision "pairing.decision" ((env.pairingDecision payload).getD .null)
  | .transfer _ => .newDecision "transfer.incoming.decision" ((env.transferDecision payload).getD .null)

theorem answer_eq (env : Env) (r : Request) (response : String) :
    r.answer env response = r.decided env (r.decision response) := by
  cases r with
  | pairing req => rfl
  | transfer req => rfl

end Request

/--
A dialog that has been answered.
-/
structure Answer where
  dialog : Presented
  response : String

namespace Answer

def request (a : Answer) : Request := a.dialog.request

def decision (a : Answer) : Cli.Decision := a.request.decision a.response

/--
What the button says that the user has pressed.
-/
def label? (a : Answer) : Option String := a.dialog.alert.label? a.response

def message (env : Env) (a : Answer) : IpcMessage Value := a.request.decided env a.decision

end Answer

/-! ### One step -/

/--
What the threads of the daemon's lifecycle put into the channel.
-/
def emitted (t : Transition Shell Action) : List (String × Value) :=
  match t.action with
  | .bridgeEvent name payload => [(name, payload)]
  | .watchdogEvent state => [("watchdog", .object [("state", .string state)])]
  | _ => []

/--
What the main loop takes out of it.
-/
def handled (t : Transition Shell Action) : List (String × Value) :=
  match t.action with
  | .handle => t.source.queue.take 1
  | _ => []

def answered (t : Transition Shell Action) : List Answer :=
  match t.action with
  | .respond index response _ => (t.source.dialogs[index]?).toList.map fun dialog => { dialog, response }
  | _ => []

namespace Shell

variable {s s' : Shell}

theorem dialogs_handleEvent (env : Env) (s : Shell) (event : String × Value)
    : (s.handleEvent env event.1 event.2).dialogs
        =
      s.dialogs ++ ((request? env event).map fun request => ⟨request.alert env, request⟩).toList := by
  obtain ⟨name, payload⟩ := event
  unfold handleEvent request?
  dsimp only
  split
  case h_2 =>
    split
    . next req hreq => simp [hreq, showPairingDialog, Request.alert]
    . next hreq => simp [hreq]
  case h_3 =>
    split
    . next req hreq => simp [hreq, showTransferDialog, Request.alert]
    . next hreq => simp [hreq]
  case h_1 | h_6 => split <;> simp
  all_goals simp [transferStarted, transferComplete]

theorem queue_handleEvent (env : Env) (s : Shell) (name : String) (payload : Value) :
    (s.handleEvent env name payload).queue = s.queue := by
  unfold handleEvent
  split
  case h_1 | h_2 | h_3 | h_6 => split <;> rfl
  all_goals rfl

theorem sent_handleEvent (env : Env) (s : Shell) (name : String) (payload : Value) :
    (s.handleEvent env name payload).sent = s.sent := by
  unfold handleEvent
  split
  case h_1 | h_2 | h_3 | h_6 => split <;> rfl
  all_goals rfl

/--
Events wait in the order in which they came.
-/
theorem queue_next {action : Action} (h : s.next env action = some s')
    : s.queue ++ emitted ⟨s, action, s'⟩ = handled ⟨s, action, s'⟩ ++ s'.queue := by
  cases action with
  | bridgeEvent name payload | watchdogEvent state =>
    obtain rfl := Option.some.inj h
    rfl
  | handle =>
    simp only [next] at h
    split at h
    . cases h
    . next name payload queue hqueue =>
      obtain rfl := Option.some.inj h
      simp [emitted, handled, hqueue, queue_handleEvent]
  | respond index response failure =>
    simp only [next] at h
    split at h
    . cases h
    . obtain rfl := Option.some.inj h
      simp [emitted, handled, send]
  | closeRequest =>
    obtain rfl := Option.some.inj h
    simp [emitted, handled]

/--
A dialog stays until it is answered.
-/
theorem requests_next {action : Action} (h : s.next env action = some s')
    : (s.dialogs.map (·.request) ++ (handled ⟨s, action, s'⟩).filterMap (request? env)).Perm
        ((answered ⟨s, action, s'⟩).map (·.request) ++ s'.dialogs.map (·.request)) := by
  cases action with
  | bridgeEvent name payload | watchdogEvent state | closeRequest =>
    obtain rfl := Option.some.inj h
    simp [handled, answered]
  | handle =>
    simp only [next] at h
    split at h
    . cases h
    . next name payload queue hqueue =>
      obtain rfl := Option.some.inj h
      have hdialogs := dialogs_handleEvent env { s with queue } (name, payload)
      simp only [handled, answered, hqueue, List.take_succ_cons, List.take_zero, List.map_nil,
        List.nil_append]
      rw [hdialogs, List.map_append]
      cases hrequest : request? env (name, payload) with
      | none => simp [hrequest]
      | some request => simp [hrequest]
  | respond index response failure =>
    simp only [next] at h
    split at h
    . cases h
    . next dialog hdialog =>
      obtain rfl := Option.some.inj h
      obtain ⟨hlt, rfl⟩ := List.getElem?_eq_some_iff.mp hdialog
      simp only [handled, answered, hdialog, send, List.filterMap_nil, List.append_nil, Option.toList_some,
        List.map_cons, List.map_nil, List.singleton_append, Answer.request]
      rw [← List.map_cons (f := fun d : Presented => d.request)]
      exact (List.getElem_cons_eraseIdx_perm hlt).symm.map _

theorem sent_next {action : Action} (h : s.next env action = some s')
    : s'.sent = s.sent ++ (answered ⟨s, action, s'⟩).map (·.message env) := by
  cases action with
  | bridgeEvent name payload | watchdogEvent state | closeRequest =>
    obtain rfl := Option.some.inj h
    simp [answered]
  | handle =>
    simp only [next] at h
    split at h
    . cases h
    . obtain rfl := Option.some.inj h
      simp [answered, sent_handleEvent]
  | respond index response failure =>
    simp only [next] at h
    split at h
    . cases h
    . next dialog hdialog =>
      obtain rfl := Option.some.inj h
      simp [answered, hdialog, send, Answer.message, Answer.decision, Answer.request, Request.answer_eq]

/--
Each dialog is the one for its request.
-/
theorem alert_of_mem (h : (machine env).Reachable s)
    : ∀ d ∈ s.dialogs, d.alert = d.request.alert env := by
  refine Machine.Reachable.invariant (I := fun s => ∀ d ∈ s.dialogs, d.alert = d.request.alert env) ?_ ?_ h
  . rintro _ rfl
    exact List.forall_mem_nil _
  . intro s action s' _ hdialogs hnext
    cases action with
    | bridgeEvent name payload | watchdogEvent state | closeRequest =>
      obtain rfl := Option.some.inj hnext
      exact hdialogs
    | handle =>
      simp only [machine, Machine.ofFun, next] at hnext
      split at hnext
      . cases hnext
      . next name payload queue hqueue =>
        obtain rfl := Option.some.inj hnext
        intro d hd
        rw [dialogs_handleEvent env { s with queue } (name, payload), List.mem_append] at hd
        rcases hd with hd | hd
        . exact hdialogs d hd
        . rw [Option.mem_toList, Option.map_eq_some_iff] at hd
          obtain ⟨request, -, rfl⟩ := hd
          rfl
    | respond index response failure =>
      simp only [machine, Machine.ofFun, next] at hnext
      split at hnext
      . cases hnext
      . obtain rfl := Option.some.inj hnext
        intro d hd
        exact hdialogs d (List.mem_of_mem_eraseIdx hd)

end Shell

/-! ### Runs -/

variable {tr : List (Transition Shell Action)} {s : Shell}

theorem handled_in_order (h : (Shell.machine env).Run tr s)
    : tr.flatMap emitted = tr.flatMap handled ++ s.queue := by
  apply Machine.Run.conserves (fun s => s.queue) _ _ h
  . rintro _ rfl
    rfl
  . intro s action s' _ hnext
    exact Shell.queue_next hnext

theorem handled_requests (h : (Shell.machine env).Run tr s)
    : ((tr.flatMap handled).filterMap (request? env)).Perm
        ((tr.flatMap answered).map (·.request) ++ s.dialogs.map (·.request)) := by
  rw [List.filterMap_flatMap, List.map_flatMap]
  refine Machine.Run.conserves_perm (fun s => s.dialogs.map (·.request)) ?_ ?_ h
  . rintro _ rfl
    rfl
  . intro s action s' _ hnext
    exact Shell.requests_next hnext

theorem answer_of_mem (h : (Shell.machine env).Run tr s) {a : Answer} (ha : a ∈ tr.flatMap answered)
    : a.dialog.alert = a.request.alert env := by
  obtain ⟨t, ht, ha⟩ := List.mem_flatMap.mp ha
  apply Shell.alert_of_mem (h.reachable_source ht)
  unfold answered at ha
  split at ha
  . obtain ⟨dialog, hdialog, rfl⟩ := List.mem_map.mp ha
    exact List.mem_of_getElem? (Option.mem_toList.mp hdialog)
  . cases ha

def requestIdOf (payload : Value) : Option String := (payload.get "request_id").bind Value.asStr

/--
A world in which a payload with a request id is a request.
-/
def Env.plain : Env where
  pairingRequest payload := (requestIdOf payload).map fun requestId =>
    { requestId, remoteDeviceName := "Phone", remoteDeviceType := "phone", sas := "482913",
      capabilitiesRequested := [] }
  transferRequest payload := (requestIdOf payload).map fun requestId =>
    { requestId, fromDeviceName := "Phone", fileName := "notes.txt", fileSizeBytes := 12 }
  pairingDecision p := some (.string (p.requestId ++ " " ++ p.decision.wireValue))
  transferDecision p := some (.string (p.requestId ++ " " ++ p.decision.wireValue))
  tenths _ := "1.0"

def requestEvent (name requestId : String) : Action :=
  .bridgeEvent name (.object [("request_id", .string requestId)])

/--
Two requests come in, and the second one is answered first.
-/
def twoAnswered : List Action :=
  [requestEvent "daemon://pairing-request" "p1", requestEvent "daemon://transfer-request" "t1", .handle, .handle,
    .respond 1 "accept" none, .respond 0 "close" none]

end Gtk

end LocalBolt
