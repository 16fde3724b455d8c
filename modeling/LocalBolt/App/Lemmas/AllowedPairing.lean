import LocalBolt.App.Lemmas.Background

/-!
This module contains the path that opens a session from a pairing request: the user allows it, and
the next session event of the daemon is that the session is connected.
-/

namespace LocalBolt

namespace App

def AwaitsNobody (s : App) : Prop :=
  s.ipc.sessionPhase = .idle ∨ (∃ reason, s.ipc.sessionPhase = .disconnected reason)
    ∨ s.ipc.sessionPhase = .incomingRequest ∨ s.ipc.sessionPhase = .connecting

def ConnectedTo (s : App) (req : PairingRequest) (key : Option String) : Prop :=
  s.ipc.sessionPhase = .connected
    ∧ s.ipc.connectedPeer = some { IpcManager.acceptPeer req with identityKeyB64 := key }

theorem AwaitsNobody.ne_connected {s : App} (h : s.AwaitsNobody) :
    s.ipc.sessionPhase ≠ .connected := by
  intro hphase
  simp [AwaitsNobody, hphase] at h

theorem AwaitsNobody.opening_iff {s : App} (h : s.AwaitsNobody) :
    s.ipc.sessionPhase.Opening
      ↔ s.ipc.sessionPhase = .incomingRequest ∨ s.ipc.sessionPhase = .connecting := by
  unfold SessionPhase.Opening
  constructor
  . rintro (hphase | hphase | hphase)
    . simp [AwaitsNobody, hphase] at h
    . exact .inl hphase
    . exact .inr hphase
  . exact .inr

theorem sessionConnected_connectedTo_iff {m : IpcManager} {req : PairingRequest}
    (hphase : m.sessionPhase ≠ .connected)
    (hstash : m.pendingAcceptPeer = some (IpcManager.acceptPeer req)) (key : Option String)
    : ((m.sessionConnected key).sessionPhase = .connected
          ∧ (m.sessionConnected key).connectedPeer
              = some { IpcManager.acceptPeer req with identityKeyB64 := key })
        ↔
      m.sessionPhase.Opening := by
  constructor
  . rintro ⟨hconnected, -⟩
    by_contra hopen
    rw [IpcManager.sessionConnected_of_not_opening hopen] at hconnected
    exact hphase hconnected
  . intro hopen
    rw [IpcManager.sessionConnected_of_opening hopen]
    simp [IpcManager.resolvePeer, hstash]

theorem next_decision_attempt {s s' : App} {req : PairingRequest} {decision : PairingDecision}
    (hs : s.BridgeOpen) (hreq : s.ipc.pendingRequest = some req) (hallow : decision.isAllow = true)
    (h : s.next (.sendPairingDecision req.requestId decision) = some s')
    : s'.ipc.attempt
        =
      { s.ipc.attempt with pendingAcceptPeer := some (IpcManager.acceptPeer req) } := by
  have hhandle : s.ipc.handle.isSome = true := hs.pending (by simp [hreq])
  have hipc : s'.ipc = s.ipc.sendPairingDecision req.requestId decision :=
    (Option.some.inj (next_ipc h)).symm
  rw [hipc]
  exact IpcManager.sendPairingDecision_attempt_of_allow hhandle hreq hallow req.requestId

/--
From `s`, the user allows the pairing request `req`, then only background steps happen, and the next
session event of the daemon is the session-connected event with `key`, which leads to `s'`.
-/
def AllowedThenConnected (peerCode : String) (daemonBinaryPath : Option String) (s : App)
    (req : PairingRequest) (key : Option String) (s' : App) : Prop :=
  ∃ decision s₁ tr s₂ action now,
    decision.isAllow = true
      ∧ s.next (.sendPairingDecision req.requestId decision) = some s₁
      ∧ (machine peerCode daemonBinaryPath).Path s₁ tr s₂
      ∧ (∀ t ∈ tr, Background t)
      ∧ s₂.move action = .event (.sessionConnected key) now
      ∧ s₂.next action = some s'

def aliceAsks : PairingRequest where
  requestId := "r1"
  deviceName := "Alice"
  deviceType := "phone"
  sas := "402913"

def aliceAsked (before : List Action) : List Action :=
  launch [] ++ before
    ++ deliver [("daemon://pairing-request",
        .obj [("request_id", .str "r1"), ("remote_device_name", .str "Alice"),
          ("remote_device_type", .str "phone"), ("sas", .str "402913")])] ⟨0⟩

def sessionFollows : List Action :=
  [.ipcCallback sessionConnectedEvent.1 sessionConnectedEvent.2, .ipcPoll true]

theorem exists_aliceAllowed (before : List Action) (P : App → App → Bool)
    (h : ((Machine.exec renderedNext (init "A3F9KQ" (some "bolt-daemon")) (aliceAsked before)).bind
        fun s => (s.next (.sendPairingDecision "r1" .allowOnce)).bind
        fun s₁ => (Machine.exec next s₁ sessionFollows).bind
        fun s₂ => (s₂.next (.ipcLine ⟨1⟩)).map
        fun s' => P s s' && decide (s.ipc.pendingRequest = some aliceAsks)
          && (Machine.trace next s₁ sessionFollows).all (fun t => Background t)
          && match s₂.move (.ipcLine ⟨1⟩) with
            | .event (.sessionConnected none) _ => true
            | _ => false) = some true) :
    ∃ s s', (rendered "A3F9KQ" (some "bolt-daemon")).Reachable s
      ∧ s.ipc.pendingRequest = some aliceAsks
      ∧ AllowedThenConnected "A3F9KQ" (some "bolt-daemon") s aliceAsks none s'
      ∧ P s s' = true := by
  obtain ⟨s, hs, h⟩ := Option.bind_eq_some_iff.mp h
  obtain ⟨s₁, hs₁, h⟩ := Option.bind_eq_some_iff.mp h
  obtain ⟨s₂, hs₂, h⟩ := Option.bind_eq_some_iff.mp h
  obtain ⟨s', hs', h⟩ := Option.map_eq_some_iff.mp h
  simp only [Bool.and_eq_true, decide_eq_true_eq, List.all_eq_true] at h
  obtain ⟨⟨⟨hP, hreq⟩, hquiet⟩, hevent⟩ := h
  refine ⟨s, s', Machine.reachable_of_exec hs, hreq, ?_, hP⟩
  split at hevent
  . next now hmove =>
    exact ⟨.allowOnce, s₁, _, s₂, _, now, rfl, hs₁, Machine.path_trace hs₂, hquiet, hmove, hs'⟩
  . simp at hevent

end App

end LocalBolt
