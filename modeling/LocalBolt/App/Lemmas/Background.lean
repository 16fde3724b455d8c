import LocalBolt.App.Lemmas.Simulation
import LocalBolt.Session.Lemmas.Connected

/-!
This module contains what may go on beside an attempt that waits for its session: polls, the other
events of the daemon and the file queue. None of it changes the attempt.
-/

namespace LocalBolt

def DaemonEvent.isSession : DaemonEvent → Bool
  | .sessionConnected _ => true
  | .sessionSas _ _ => true
  | .sessionEnded _ => true
  | .sessionError _ => true
  | .bridgeDisconnected => true
  | _ => false

def Move.background : Move → Bool
  | .start _ _ => true
  | .callback _ _ => true
  | .poll _ => true
  | .event daemonEvent _ => !daemonEvent.isSession
  | .sendPairingDecision _ decision => !decision.isAllow
  | .dismissRequest => true
  | .wtSessionSAS _ => true
  | .clearTransfer => true
  | .sendFile _ => true
  | .skip => true
  | _ => false

namespace IpcManager

theorem sendPairingDecision_attempt_of_deny {m : IpcManager} {decision : PairingDecision}
    (h : decision.isAllow = false) (requestId : String) :
    (m.sendPairingDecision requestId decision).attempt = m.attempt := by
  unfold sendPairingDecision
  split
  . rfl
  . dsimp only
    split
    . rw [h]
      rfl
    . rfl

theorem sendPairingDecision_attempt_of_allow {m : IpcManager} {decision : PairingDecision}
    {req : PairingRequest} (hhandle : m.handle.isSome = true) (hreq : m.pendingRequest = some req)
    (h : decision.isAllow = true) (requestId : String)
    : (m.sendPairingDecision requestId decision).attempt
        =
      { m.attempt with pendingAcceptPeer := some (acceptPeer req) } := by
  obtain ⟨b, hb⟩ := Option.isSome_iff_exists.mp hhandle
  simp [sendPairingDecision, hb, hreq, h, attempt]

theorem applyWtVerificationCode_of_not_connected {m : IpcManager}
    (h : m.sessionPhase ≠ .connected) (sas : Option String) :
    ContentView.applyWtVerificationCode m sas = m := by
  unfold ContentView.applyWtVerificationCode
  split
  . rfl
  . rw [if_neg h]

theorem handleEvent_background {m m' : IpcManager} {event : DaemonEvent} {now : Date}
    (h : m.handleEvent event now = some m') (hevent : event.isSession = false)
    (hphase : m.sessionPhase ≠ .connected) : m'.attempt = m.attempt := by
  cases event with
  | sessionConnected | sessionSas | sessionEnded | sessionError | bridgeDisconnected =>
    simp [DaemonEvent.isSession] at hevent
  | statusUpdate connectedPeers =>
    simp only [handleEvent, statusUpdate] at h
    split at h
    . simp at h
    . rw [if_neg (fun hzero => hphase hzero.2)] at h
      obtain rfl := Option.some.inj h
      rfl
  | transferStarted fileName transferId direction fileSizeBytes =>
    simp only [handleEvent] at h
    split at h <;>
      . obtain rfl := Option.some.inj h
        rfl
  | transferProgress progress transferId =>
    simp only [handleEvent, transferProgress, Option.some.injEq] at h
    subst h
    split <;> rfl
  | _ =>
    obtain rfl := Option.some.inj h
    rfl

theorem step_background {m m' : IpcManager} {move : Move} (h : m.step move = some m')
    (hmove : move.background = true) (hphase : m.sessionPhase ≠ .connected) :
    m'.attempt = m.attempt := by
  cases move with
  | event event now => exact handleEvent_background h (by simpa [Move.background] using hmove) hphase
  | start file connects =>
    obtain rfl := Option.some.inj h
    exact attempt_start m file connects
  | poll connected =>
    obtain rfl := Option.some.inj h
    exact attempt_poll m connected
  | sendPairingDecision requestId decision =>
    obtain rfl := Option.some.inj h
    exact sendPairingDecision_attempt_of_deny (by simpa [Move.background] using hmove) requestId
  | wtSessionSAS sas =>
    obtain rfl := Option.some.inj h
    rw [applyWtVerificationCode_of_not_connected hphase]
  | callback | dismissRequest | clearTransfer | sendFile | skip =>
    obtain rfl := Option.some.inj h
    rfl
  | _ => simp [Move.background] at hmove

end IpcManager

namespace App

def Background (t : Transition App Action) : Prop :=
  (t.source.move t.action).background = true

instance : DecidablePred Background := fun t =>
  inferInstanceAs (Decidable ((t.source.move t.action).background = true))

theorem path_background {peerCode : String} {daemonBinaryPath : Option String} {s s' : App}
    {tr : List (Transition App Action)}
    (h : (machine peerCode daemonBinaryPath).Path s tr s') (hquiet : ∀ t ∈ tr, Background t)
    (hphase : s.ipc.sessionPhase ≠ .connected) : s'.ipc.attempt = s.ipc.attempt := by
  refine h.invariant (I := fun s' => s'.ipc.attempt = s.ipc.attempt) rfl ?_
  intro t ht hstep hsame
  have hsource : t.source.ipc.sessionPhase ≠ .connected := by
    rw [← IpcManager.attempt_sessionPhase, hsame]
    exact hphase
  exact (IpcManager.step_background (next_ipc hstep) (hquiet t ht) hsource).trans hsame

end App

/-! ### The bridge is open while it is polled -/

namespace IpcManager

structure KeepsBridge (m m' : IpcManager) : Prop where
  handle : m.handle.isSome = true → m'.handle.isSome = true
  pending : m'.pendingRequest.isSome = true → m.pendingRequest.isSome = true

theorem resetDisconnected_keepsBridge (m : IpcManager) :
    m.KeepsBridge m.resetDisconnectedPresentationIfNeeded := by
  unfold resetDisconnectedPresentationIfNeeded
  split
  . exact ⟨id, by simp [resetSession]⟩
  . exact ⟨id, id⟩

theorem applyWtVerificationCode_keepsBridge {m m' : IpcManager} (h : m.KeepsBridge m')
    (sas : Option String) : m.KeepsBridge (ContentView.applyWtVerificationCode m' sas) := by
  unfold ContentView.applyWtVerificationCode
  split
  . exact h
  . split
    . exact ⟨h.handle, h.pending⟩
    . exact h

theorem onWtSessionActive_keepsBridge (m : IpcManager) (active : Bool) (sas : Option String) :
    m.KeepsBridge (ContentView.onWtSessionActive m active sas) := by
  cases active with
  | true =>
    by_cases hphase : m.sessionPhase = .connecting
    . rw [onWtSessionActive_connecting hphase]
      apply applyWtVerificationCode_keepsBridge
      unfold ContentView.resolveWtPeer
      split <;> exact ⟨id, id⟩
    . rw [onWtSessionActive_of_not hphase]
      exact ⟨id, id⟩
  | false =>
    by_cases hphase : m.sessionPhase = .connected
    . rw [onWtSessionActive_connected hphase]
      exact ⟨id, by simp [disconnectSession]⟩
    . rw [onWtSessionActive_false_of_not hphase]
      exact ⟨id, id⟩

theorem sendPairingDecision_keepsBridge (m : IpcManager) (requestId : String)
    (decision : PairingDecision) : m.KeepsBridge (m.sendPairingDecision requestId decision) := by
  unfold sendPairingDecision
  split
  . exact ⟨id, id⟩
  . dsimp only
    split
    . split <;> exact ⟨id, by simp⟩
    . exact ⟨id, by simp⟩

theorem step_keepsBridge {m m' : IpcManager} {move : Move} (h : m.step move = some m')
    (hmove : ∀ event now, move ≠ .event event now) : m.KeepsBridge m' := by
  cases move with
  | event event now => exact absurd rfl (hmove event now)
  | start file connects =>
    obtain rfl := Option.some.inj h
    unfold start
    dsimp only
    split <;> split <;> (try split) <;> exact ⟨by simp, id⟩
  | callback eventName payload =>
    obtain rfl := Option.some.inj h
    exact ⟨by simp [callback], id⟩
  | poll connected =>
    obtain rfl := Option.some.inj h
    unfold poll
    split <;> exact ⟨by simp, id⟩
  | beginRequest peer =>
    obtain rfl := Option.some.inj h
    have hreset := resetDisconnected_keepsBridge m
    unfold beginRequest
    dsimp only
    split <;> exact ⟨hreset.handle, hreset.pending⟩
  | receiveRequest =>
    obtain rfl := Option.some.inj h
    have hreset := resetDisconnected_keepsBridge m
    unfold receiveRequest
    dsimp only
    split <;> exact ⟨hreset.handle, hreset.pending⟩
  | beginConnecting =>
    obtain rfl := Option.some.inj h
    unfold beginConnecting
    split <;> exact ⟨id, id⟩
  | accept peerCode deviceName deviceType =>
    obtain rfl := Option.some.inj h
    by_cases hasking : m.sessionPhase = .requesting ∨ m.sessionPhase = .incomingRequest
    . rw [accept_of hasking]
      exact ⟨id, id⟩
    . rw [accept_of_not hasking]
      exact ⟨id, id⟩
  | resetSession | disconnectSession | dismissRequest =>
    obtain rfl := Option.some.inj h
    exact ⟨id, by simp [resetSession, disconnectSession]⟩
  | dismissDisconnect =>
    obtain rfl := Option.some.inj h
    unfold dismissDisconnect
    split
    . exact ⟨id, by simp [resetSession]⟩
    . exact ⟨id, id⟩
  | sendPairingDecision requestId decision =>
    obtain rfl := Option.some.inj h
    exact sendPairingDecision_keepsBridge m requestId decision
  | wtSessionActive active sas =>
    obtain rfl := Option.some.inj h
    exact onWtSessionActive_keepsBridge m active sas
  | wtSessionSAS sas =>
    obtain rfl := Option.some.inj h
    exact applyWtVerificationCode_keepsBridge ⟨id, id⟩ sas
  | _ =>
    obtain rfl := Option.some.inj h
    exact ⟨id, id⟩

theorem sessionConnected_bridge (m : IpcManager) (key : Option String) :
    (m.sessionConnected key).handle = m.handle
      ∧ (m.sessionConnected key).generation = m.generation := by
  by_cases hopen : m.sessionPhase.Opening
  . rw [sessionConnected_of_opening hopen]
    unfold resolvePeer
    split <;> exact ⟨rfl, rfl⟩
  . rw [sessionConnected_of_not_opening hopen]
    exact ⟨rfl, rfl⟩

theorem sessionSas_bridge (m : IpcManager) (sas key : Option String) (now : Date) :
    (m.sessionSas sas key now).handle = m.handle
      ∧ (m.sessionSas sas key now).generation = m.generation := by
  obtain ⟨peer, store, hframe⟩ := sessionSas_frame m sas key now
  rw [hframe]
  exact ⟨rfl, rfl⟩

theorem handleEvent_bridge {m m' : IpcManager} {event : DaemonEvent} {now : Date}
    (h : m.handleEvent event now = some m') :
    (m'.handle = m.handle ∧ m'.generation = m.generation)
      ∨ (m'.pendingRequest = none ∧ m'.generation = m.generation + 1) := by
  cases event with
  | statusUpdate connectedPeers =>
    simp only [handleEvent, statusUpdate] at h
    split at h
    . simp at h
    . split at h <;>
        . obtain rfl := Option.some.inj h
          exact .inl ⟨rfl, rfl⟩
  | sessionConnected key =>
    obtain rfl := Option.some.inj h
    exact .inl (sessionConnected_bridge m key)
  | sessionSas sas key =>
    obtain rfl := Option.some.inj h
    exact .inl (sessionSas_bridge m sas key now)
  | transferStarted fileName transferId direction fileSizeBytes =>
    simp only [handleEvent] at h
    split at h <;>
      . obtain rfl := Option.some.inj h
        exact .inl ⟨rfl, rfl⟩
  | transferProgress progress transferId =>
    simp only [handleEvent, transferProgress, Option.some.injEq] at h
    subst h
    split <;> exact .inl ⟨rfl, rfl⟩
  | bridgeDisconnected =>
    obtain rfl := Option.some.inj h
    exact .inr ⟨rfl, rfl⟩
  | _ =>
    obtain rfl := Option.some.inj h
    exact .inl ⟨rfl, rfl⟩

end IpcManager

namespace App

structure BridgeOpen (s : App) : Prop where
  pending : s.ipc.pendingRequest.isSome = true → s.ipc.handle.isSome = true
  polling : ∀ frame, s.polling = some frame → frame.gen = s.ipc.generation →
    s.ipc.handle.isSome = true

theorem sendFirstFile_polling (s : App) : s.sendFirstFile.1.polling = s.polling := by
  unfold sendFirstFile
  split <;> rfl

theorem onMain_polling {s : App} {action : Action} {p : App × List Command}
    (h : s.onMain action = some p) :
    p.1.polling = s.polling ∨ ∃ connected, p.1 = s.ipcPoll connected := by
  cases action with
  | ipcCallback | ipcLine => simp [onMain] at h
  | ipcPoll connected =>
    obtain rfl := Option.some.inj h
    exact .inr ⟨connected, rfl⟩
  | daemonStart started =>
    obtain rfl := Option.some.inj h
    left
    simp only [autoStart]
    split <;> rfl
  | incomingSignal signal =>
    obtain rfl := Option.some.inj h
    exact .inl (handleSignal_polling s signal)
  | onConnectionDeclined | onWtSessionActive | onWtSessionSAS | removeFile =>
    simp only [onMain] at h
    split at h
    . obtain rfl := Option.some.inj h
      left
      first
        | rfl
        | simp only [onConnectionDeclined]
          split <;> rfl
    . simp at h
  | initiateConnection peer host =>
    obtain rfl := Option.some.inj h
    left
    simp only [initiateConnection]
    split <;> rfl
  | acceptRequest request host =>
    obtain rfl := Option.some.inj h
    left
    simp only [acceptRequest]
    split <;> rfl
  | dropFile url =>
    obtain rfl := Option.some.inj h
    left
    simp only [dropFile]
    split <;> rfl
  | sendFirstFile =>
    obtain rfl := Option.some.inj h
    exact .inl (sendFirstFile_polling s)
  | sendNextOrClear =>
    obtain rfl := Option.some.inj h
    left
    simp only [sendNextOrClear]
    split
    . rfl
    . exact sendFirstFile_polling s
  | _ =>
    obtain rfl := Option.some.inj h
    exact .inl rfl

theorem onMain_bridgeOpen {s : App} {action : Action} {p : App × List Command} (hs : s.BridgeOpen)
    (hidle : s.polling = none) (h : s.onMain action = some p) : p.1.BridgeOpen := by
  have hkeeps : s.ipc.KeepsBridge p.1.ipc := by
    refine IpcManager.step_keepsBridge (onMain_ipc h) ?_
    intro event now
    cases action with
    | ipcLine => simp [onMain] at h
    | incomingSignal signal =>
      simp only [move, signalMove]
      split <;> simp
    | onConnectionDeclined =>
      simp only [move]
      split <;> simp
    | sendFirstFile | sendNextOrClear =>
      simp only [move, queueMove]
      split <;> simp
    | _ => simp [move]
  constructor
  . intro hpending
    exact hkeeps.handle (hs.pending (hkeeps.pending hpending))
  . intro frame hframe _
    rcases onMain_polling h with hsame | ⟨connected, hpoll⟩
    . rw [hsame, hidle] at hframe
      simp at hframe
    . rw [hpoll] at hframe ⊢
      unfold ipcPoll at hframe ⊢
      split at hframe
      . rw [hidle] at hframe
        simp at hframe
      . next b hb => simp [IpcManager.poll, hb]

theorem ipcLine_bridgeOpen {s s' : App} {now : Date} (hs : s.BridgeOpen)
    (h : s.ipcLine now = some s') : s'.BridgeOpen := by
  unfold ipcLine at h
  split at h
  . simp at h
  . obtain rfl := Option.some.inj h
    exact ⟨hs.pending, by simp⟩
  . next gen queued lines hpolling =>
    split at h
    . next hgen =>
      have hgen : gen = s.ipc.generation := by simpa [IpcManager.isCurrentGeneration] using hgen
      have hhandle := hs.polling _ hpolling hgen
      dsimp only at h
      split at h
      . obtain rfl := Option.some.inj h
        refine ⟨hs.pending, ?_⟩
        intro _ _ _
        exact hhandle
      . next event _ =>
        obtain ⟨ipc, hipc, rfl⟩ := Option.map_eq_some_iff.mp h
        rcases IpcManager.handleEvent_bridge hipc with ⟨hsame, -⟩ | ⟨hnone, hnext⟩
        . constructor
          . intro _
            exact hsame ▸ hhandle
          . intro _ _ _
            exact hsame ▸ hhandle
        . constructor
          . simp [hnone]
          . -- the lines left over are of the generation that ended
            intro frame hframe hcurrent
            obtain rfl := Option.some.inj hframe
            simp only [hnext, hgen] at hcurrent
            omega
    . obtain rfl := Option.some.inj h
      exact ⟨hs.pending, by simp⟩

theorem bridgeOpen {peerCode : String} {daemonBinaryPath : Option String} {s : App}
    (h : (machine peerCode daemonBinaryPath).Reachable s) : s.BridgeOpen := by
  refine Machine.Reachable.invariant (I := BridgeOpen) ?_ ?_ h
  . intro s hs
    simp only [machine, Machine.ofFun] at hs
    subst hs
    constructor <;> simp [init]
  . intro s action s' _ hs hnext
    obtain ⟨p, hp, rfl⟩ := Option.map_eq_some_iff.mp hnext
    unfold step at hp
    split at hp
    . obtain rfl := Option.some.inj hp
      constructor
      . intro hpending
        simpa [IpcManager.callback] using hs.pending hpending
      . intro frame hframe hgen
        simpa [IpcManager.callback] using hs.polling frame hframe hgen
    . obtain ⟨s', hs', rfl⟩ := Option.map_eq_some_iff.mp hp
      exact ipcLine_bridgeOpen hs hs'
    . split at hp
      . next hidle => exact onMain_bridgeOpen hs (Option.isNone_iff_eq_none.mp hidle) hp
      . simp at hp

end App

end LocalBolt
