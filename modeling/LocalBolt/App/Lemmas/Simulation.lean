import LocalBolt.App.Impl.View

/-!
This module contains the simulation of the app by its session manager: each step of the app makes at
most one move, so what an observer of the session manager sees can be told for runs of the app.
-/

namespace LocalBolt

namespace App

def signalMove (signal : IncomingSignal) : Move :=
  match signal.signalType with
  | "connection_request" => .receiveRequest
  | "connection_accepted" => .beginConnecting
  | _ => .skip

def lineMove (s : App) (now : Date) : Move :=
  match s.polling with
  | some { gen, lines := queued :: _ } =>
    if s.ipc.isCurrentGeneration gen then
      match DaemonEvent.ofLine queued.line with
      | some event => .event event now
      | none => .skip
    else
      .skip
  | _ => .skip

def queueMove (s : App) (empty : Move) : Move :=
  match s.fileQueue with
  | [] => empty
  | url :: _ => .sendFile url.lastPathComponent

def move (s : App) : Action → Move
  | .incomingSignal signal => signalMove signal
  | .ipcStart file connects => .start file connects
  | .ipcCallback eventName payload => .callback eventName payload
  | .ipcPoll connected => .poll connected
  | .ipcLine now => s.lineMove now
  | .onConnectionDeclined => if s.signaling.connectionDeclined then .resetSession else .skip
  | .onWtSessionActive => .wtSessionActive s.daemon.wtSessionActive s.daemon.wtSessionSAS
  | .onWtSessionSAS => .wtSessionSAS s.daemon.wtSessionSAS
  | .initiateConnection peer _ => .beginRequest peer
  | .cancelRequest => .resetSession
  | .cancelAccept => .resetSession
  | .declineRequest _ => .resetSession
  | .acceptRequest request _ =>
    .accept request.fromPeer (requestDeviceName request) (requestDeviceType request)
  | .disconnect => .disconnectSession "user initiated"
  | .disconnectMismatch => .disconnectSession "identity mismatch"
  | .rejectSas => .disconnectSession "identity not verified"
  | .markVerified => .markVerified
  | .dismissDisconnect => .dismissDisconnect
  | .sendPairingDecision requestId decision => .sendPairingDecision requestId decision
  | .dismissRequest => .dismissRequest
  | .sendFirstFile => s.queueMove .skip
  | .sendNextOrClear => s.queueMove .clearTransfer
  | .dismissFailed => .clearTransfer
  | .cancelTransfer => .disconnectSession "transfer cancelled"
  | _ => .skip

theorem connectionRequest_ipc (s : App) (signal : IncomingSignal) :
    (s.connectionRequest signal).1.ipc = s.ipc.receiveRequest.2 := by
  unfold connectionRequest
  dsimp only
  split <;> rfl

theorem connectionAccepted_ipc (s : App) (signal : IncomingSignal) :
    (s.connectionAccepted signal).1.ipc = s.ipc.beginConnecting.2 := by
  unfold connectionAccepted
  dsimp only
  split
  . split <;> rfl
  . rfl

theorem handleSignal_request {signal : IncomingSignal} (h : signal.signalType = "connection_request")
    (s : App) : s.handleSignal signal = s.connectionRequest signal := by
  simp [handleSignal, h]

theorem handleSignal_accepted {signal : IncomingSignal} (h : signal.signalType = "connection_accepted")
    (s : App) : s.handleSignal signal = s.connectionAccepted signal := by
  simp [handleSignal, h]

theorem handleSignal_other {signal : IncomingSignal} (hreq : signal.signalType ≠ "connection_request")
    (hacc : signal.signalType ≠ "connection_accepted") (s : App) :
    (s.handleSignal signal).1.ipc = s.ipc ∧ (s.handleSignal signal).2 = [] := by
  unfold handleSignal
  split
  . contradiction
  . contradiction
  . exact ⟨rfl, rfl⟩
  . exact ⟨rfl, rfl⟩

theorem handleSignal_ipc (s : App) (signal : IncomingSignal) :
    s.ipc.step (signalMove signal) = some (s.handleSignal signal).1.ipc := by
  by_cases hreq : signal.signalType = "connection_request"
  . rw [handleSignal_request hreq, connectionRequest_ipc]
    simp [signalMove, hreq, IpcManager.step]
  . by_cases hacc : signal.signalType = "connection_accepted"
    . rw [handleSignal_accepted hacc, connectionAccepted_ipc]
      simp [signalMove, hacc, IpcManager.step]
    . rw [(handleSignal_other hreq hacc s).1]
      unfold signalMove
      split <;> first | contradiction | rfl

theorem handleSignal_polling (s : App) (signal : IncomingSignal) :
    (s.handleSignal signal).1.polling = s.polling := by
  unfold handleSignal
  split
  . unfold connectionRequest
    dsimp only
    split <;> rfl
  . unfold connectionAccepted
    dsimp only
    split
    . split <;> rfl
    . rfl
  . rfl
  . rfl

theorem ipcPoll_ipc (s : App) (connected : Bool) :
    (s.ipcPoll connected).ipc = s.ipc.poll connected := by
  unfold ipcPoll
  split
  . next h => simp [IpcManager.poll, h]
  . rfl

theorem ipcLine_ipc {s s' : App} {now : Date} (h : s.ipcLine now = some s') :
    s.ipc.step (s.lineMove now) = some s'.ipc := by
  unfold ipcLine at h
  unfold lineMove
  split at h
  . simp at h
  . next hp =>
    obtain rfl := Option.some.inj h
    rw [hp]
    rfl
  . next gen queued lines hp =>
    rw [hp]
    dsimp only at h ⊢
    split at h
    . next hgen =>
      rw [if_pos hgen]
      split at h
      . next hline =>
        obtain rfl := Option.some.inj h
        rw [hline]
        rfl
      . next event hline =>
        rw [hline]
        obtain ⟨ipc, hipc, rfl⟩ := Option.map_eq_some_iff.mp h
        exact hipc
    . next hgen =>
      obtain rfl := Option.some.inj h
      rw [if_neg hgen]
      rfl

theorem onConnectionDeclined_ipc (s : App) :
    s.ipc.step (if s.signaling.connectionDeclined then .resetSession else .skip)
      = some s.onConnectionDeclined.ipc := by
  unfold onConnectionDeclined
  dsimp only
  split <;> rfl

theorem initiateConnection_ipc (s : App) (peer : DiscoveredPeer) (host : Host) :
    (s.initiateConnection peer host).1.ipc = (s.ipc.beginRequest peer).2 := by
  unfold initiateConnection
  dsimp only
  split <;> rfl

theorem acceptRequest_ipc (s : App) (request : IncomingSignal) (host : Host)
    : (s.acceptRequest request host).1.ipc
        =
      (ContentView.accept s.ipc request.fromPeer (requestDeviceName request)
        (requestDeviceType request)).2 := by
  unfold acceptRequest
  dsimp only
  split <;> rfl

theorem sendFirstFile_ipc (s : App) :
    s.ipc.step (s.queueMove .skip) = some s.sendFirstFile.1.ipc := by
  unfold queueMove sendFirstFile
  cases s.fileQueue <;> rfl

theorem sendNextOrClear_ipc (s : App) :
    s.ipc.step (s.queueMove .clearTransfer) = some s.sendNextOrClear.1.ipc := by
  unfold queueMove sendNextOrClear
  split
  . next h => simp [h, IpcManager.step]
  . next h => simp [h, IpcManager.step, sendFirstFile]

theorem onMain_ipc {s : App} {action : Action} {p : App × List Command}
    (h : s.onMain action = some p) : s.ipc.step (s.move action) = some p.1.ipc := by
  cases action with
  | ipcCallback | ipcLine => simp [onMain] at h
  | daemonStart started =>
    obtain rfl := Option.some.inj h
    simp only [autoStart, move, IpcManager.step]
    split <;> rfl
  | incomingSignal signal =>
    obtain rfl := Option.some.inj h
    exact handleSignal_ipc s signal
  | ipcPoll connected =>
    obtain rfl := Option.some.inj h
    rw [ipcPoll_ipc]
    rfl
  | onConnectionDeclined =>
    simp only [onMain] at h
    split at h
    . obtain rfl := Option.some.inj h
      exact onConnectionDeclined_ipc s
    . simp at h
  | onWtSessionActive =>
    simp only [onMain] at h
    split at h
    . obtain rfl := Option.some.inj h
      rfl
    . simp at h
  | onWtSessionSAS =>
    simp only [onMain] at h
    split at h
    . obtain rfl := Option.some.inj h
      rfl
    . simp at h
  | initiateConnection peer host =>
    obtain rfl := Option.some.inj h
    rw [initiateConnection_ipc]
    rfl
  | acceptRequest request host =>
    obtain rfl := Option.some.inj h
    rw [acceptRequest_ipc]
    rfl
  | dropFile url =>
    obtain rfl := Option.some.inj h
    simp only [dropFile, move, IpcManager.step]
    split <;> rfl
  | removeFile index =>
    simp only [onMain] at h
    split at h
    . obtain rfl := Option.some.inj h
      rfl
    . simp at h
  | sendFirstFile =>
    obtain rfl := Option.some.inj h
    exact sendFirstFile_ipc s
  | sendNextOrClear =>
    obtain rfl := Option.some.inj h
    exact sendNextOrClear_ipc s
  | _ =>
    obtain rfl := Option.some.inj h
    rfl

theorem step_ipc {s : App} {action : Action} {p : App × List Command}
    (h : s.step action = some p) : s.ipc.step (s.move action) = some p.1.ipc := by
  unfold step at h
  split at h
  . obtain rfl := Option.some.inj h
    rfl
  . obtain ⟨s', hs', rfl⟩ := Option.map_eq_some_iff.mp h
    exact ipcLine_ipc hs'
  . split at h
    . exact onMain_ipc h
    . simp at h

theorem next_ipc {s s' : App} {action : Action} (h : s.next action = some s') :
    s.ipc.step (s.move action) = some s'.ipc := by
  obtain ⟨p, hp, rfl⟩ := Option.map_eq_some_iff.mp h
  exact step_ipc hp

def simulation (peerCode : String) (daemonBinaryPath : Option String) :
    Simulation (machine peerCode daemonBinaryPath) IpcManager.machine where
  state s := s.ipc
  action := move
  init s h := by
    simp only [machine, Machine.ofFun] at h
    subst h
    rfl
  step _ _ _ h := next_ipc h

def watched {γ : Type} (O : Observer IpcManager Move γ) (peerCode : String)
    (daemonBinaryPath : Option String) : Machine (App × γ) Action :=
  (machine peerCode daemonBinaryPath).observed (O.comap (simulation peerCode daemonBinaryPath))

def renderedWatched {γ : Type} (O : Observer IpcManager Move γ) (peerCode : String)
    (daemonBinaryPath : Option String) : Machine (App × γ) Action :=
  (rendered peerCode daemonBinaryPath).observed (O.comap (simulation peerCode daemonBinaryPath))

def watchedSimulation {γ : Type} (O : Observer IpcManager Move γ) (peerCode : String)
    (daemonBinaryPath : Option String) :
    Simulation (watched O peerCode daemonBinaryPath) (IpcManager.machine.observed O) :=
  Machine.simulationObserved (simulation peerCode daemonBinaryPath) O

theorem exists_renderedWatched {γ : Type} (O : Observer IpcManager Move γ) (peerCode : String)
    (daemonBinaryPath : Option String) (actions : List Action) (P : App × γ → Bool)
    (h : (Machine.exec
      (Machine.observedFun (O.comap (simulation peerCode daemonBinaryPath)) renderedNext)
      (init peerCode daemonBinaryPath, O.start) actions).any P = true) :
    ∃ q, (renderedWatched O peerCode daemonBinaryPath).Reachable q ∧ P q = true := by
  exact Machine.exists_observed_of_exec h

theorem watched_of_rendered {γ : Type} {O : Observer IpcManager Move γ} {peerCode : String}
    {daemonBinaryPath : Option String} {q : App × γ}
    (h : (renderedWatched O peerCode daemonBinaryPath).Reachable q) :
    (watched O peerCode daemonBinaryPath).Reachable q := by
  exact h.simulate (Machine.simulationObserved (renderedSimulation peerCode daemonBinaryPath)
    (O.comap (simulation peerCode daemonBinaryPath)))

end App

end LocalBolt
