import LocalBolt.Session.Lemmas.Change

/-!
This module contains the state of a session, that is, everything that a reset of the session manager
clears, and the events of the daemon that leave it as it is.
-/

namespace LocalBolt

structure SessionState where
  sessionPhase : SessionPhase
  connectedPeer : Option PeerSession
  connectedPeerCount : UInt32
  transferPhase : TransferPhase
  transferFileSizeBytes : UInt64
  transferPaused : Bool
  pendingRequest : Option PairingRequest
  pendingAcceptPeer : Option PeerSession
  pendingInitiatorPeer : Option DiscoveredPeer
  deriving DecidableEq

def SessionState.cleared (phase : SessionPhase) : SessionState where
  sessionPhase := phase
  connectedPeer := none
  connectedPeerCount := 0
  transferPhase := .idle
  transferFileSizeBytes := 0
  transferPaused := false
  pendingRequest := none
  pendingAcceptPeer := none
  pendingInitiatorPeer := none

namespace IpcManager

def sessionState (m : IpcManager) : SessionState where
  sessionPhase := m.sessionPhase
  connectedPeer := m.connectedPeer
  connectedPeerCount := m.connectedPeerCount
  transferPhase := m.transferPhase
  transferFileSizeBytes := m.transferFileSizeBytes
  transferPaused := m.transferPaused
  pendingRequest := m.pendingRequest
  pendingAcceptPeer := m.pendingAcceptPeer
  pendingInitiatorPeer := m.pendingInitiatorPeer

theorem sessionState_disconnectSession (m : IpcManager) (reason : String) :
    (m.disconnectSession reason).sessionState = .cleared (.disconnected reason) := by rfl

theorem sessionState_resetSession (m : IpcManager) :
    m.resetSession.sessionState = .cleared .idle := by rfl

theorem sessionState_stop (m : IpcManager) : m.stop.sessionState = .cleared .idle := by
  unfold stop
  rw [sessionState_resetSession]

def ShowsSas (m : IpcManager) (peer : PeerSession) (sas : String)
    (remoteIdentityPkB64 : Option String) : Prop :=
  match m.identityMismatch (remoteIdentityPkB64.or peer.identityKeyB64) with
  | some (key, name, oldKey) =>
    peer.trust = .mismatch name oldKey ∧ peer.identityKeyB64 = some key
  | none =>
    peer.trust = .unverified sas
      ∧ peer.identityKeyB64 = remoteIdentityPkB64.or peer.identityKeyB64

def Inert (m : IpcManager) : DaemonEvent → Prop
  | .pairingRequest request => m.pendingRequest = some request
  | .statusUpdate connectedPeers =>
    uint32? connectedPeers = some m.connectedPeerCount
      ∧ ¬ (m.connectedPeerCount = 0 ∧ m.sessionPhase = .connected)
  | .sessionConnected _ => ¬ m.sessionPhase.Opening
  | .sessionSas sas remoteIdentityPkB64 =>
    ∀ code peer, sas = some code → m.connectedPeer = some peer →
      m.ShowsSas peer code remoteIdentityPkB64
  | .sessionEnded reason => m.sessionState = .cleared (.disconnected reason)
  | .sessionError reason => m.sessionState = .cleared (.disconnected reason)
  | .transferStarted fileName transferId direction fileSizeBytes =>
    m.transferFileSizeBytes = fileSizeBytes
      ∧ m.transferPhase =
        if direction = "receive" then
          .receiving fileName transferId 0
        else
          .sending fileName transferId 0
  | .transferProgress progress transferId =>
    match m.transferPhase with
    | .sending _ transferId' progress' => transferId' = transferId ∧ progress' = progress
    | .receiving _ transferId' progress' => transferId' = transferId ∧ progress' = progress
    | _ => True
  | .transferComplete fileName savePath => m.transferPhase = .complete fileName savePath
  | .transferError fileName reason => m.transferPhase = .failed fileName reason
  | .transferPaused => m.transferPaused = true
  | .transferResumed => m.transferPaused = false
  | .transferRequest => True
  | .bridgeDisconnected => m.sessionState = .cleared .idle
  | .other => True

theorem sessionState_statusUpdate {m m' : IpcManager} {connectedPeers : Int}
    (h : m.statusUpdate connectedPeers = some m') :
    m'.sessionState = m.sessionState ↔ Inert m (.statusUpdate connectedPeers) := by
  simp only [statusUpdate] at h
  split at h
  . simp at h
  . next count hcount =>
    simp only [Inert, hcount, Option.some.injEq]
    split at h
    . next hlost =>
      obtain rfl := Option.some.inj h
      obtain ⟨rfl, hphase⟩ := hlost
      rw [sessionState_disconnectSession]
      constructor
      . intro hstate
        have := congrArg SessionState.sessionPhase hstate
        simp [SessionState.cleared, sessionState, hphase] at this
      . rintro ⟨hzero, hnot⟩
        exact absurd ⟨hzero.symm, hphase⟩ hnot
    . next hkept =>
      obtain rfl := Option.some.inj h
      simp only [sessionState, SessionState.mk.injEq, true_and, and_true]
      constructor
      . rintro rfl
        exact ⟨rfl, hkept⟩
      . exact And.left

theorem sessionState_sessionConnected (m : IpcManager) (key : Option String) :
    (m.sessionConnected key).sessionState = m.sessionState ↔ ¬ m.sessionPhase.Opening := by
  constructor
  . intro hstate hopen
    rw [sessionConnected_of_opening hopen] at hstate
    have hphase := congrArg SessionState.sessionPhase hstate
    simp only [sessionState, resolvePeer_sessionPhase] at hphase
    simp [← hphase, SessionPhase.Opening] at hopen
  . intro hopen
    rw [sessionConnected_of_not_opening hopen]

theorem sessionState_sessionSas_nobody {m : IpcManager} (hpeer : m.connectedPeer = none)
    (sas key : Option String) (now : Date) :
    (m.sessionSas sas key now).sessionState = m.sessionState := by
  unfold sessionSas
  split
  . rfl
  . dsimp only
    split
    . simp [sessionState, setTrust, setIdentityKey, hpeer]
    . split <;> simp [sessionState, setTrust, setIdentityKey, hpeer]

theorem sessionState_sessionSas_peer {m : IpcManager} {peer : PeerSession}
    (hpeer : m.connectedPeer = some peer) (code : String) (key : Option String) (now : Date)
    : (m.sessionSas (some code) key now).sessionState
        =
      { m.sessionState with
        connectedPeer :=
          match m.identityMismatch (key.or peer.identityKeyB64) with
          | some (key, name, oldKey) =>
            some { peer with trust := .mismatch name oldKey, identityKeyB64 := some key }
          | none =>
            some { peer with
              trust := .unverified code, identityKeyB64 := key.or peer.identityKeyB64 } } := by
  simp only [sessionSas, hpeer, Option.bind_some]
  cases hmismatch : m.identityMismatch (key.or peer.identityKeyB64) with
  | some mismatch =>
    obtain ⟨key', name, oldKey⟩ := mismatch
    simp [sessionState, setTrust, setIdentityKey, hpeer]
  | none =>
    cases hkey : key.or peer.identityKeyB64 with
    | some key' => simp [sessionState, setTrust, setIdentityKey, hpeer]
    | none =>
      have hnone : peer.identityKeyB64 = none := (Option.or_eq_none_iff.mp hkey).2
      simp [sessionState, setTrust, hpeer, hnone]

theorem update_peer_eq_iff (peer : PeerSession) (trust : TrustState) (key : Option String)
    : peer = { peer with trust, identityKeyB64 := key }
        ↔
      peer.trust = trust ∧ peer.identityKeyB64 = key := by
  constructor
  . intro h
    exact ⟨congrArg PeerSession.trust h, congrArg PeerSession.identityKeyB64 h⟩
  . rintro ⟨rfl, rfl⟩
    rfl

theorem sessionState_sessionSas (m : IpcManager) (sas key : Option String) (now : Date) :
    (m.sessionSas sas key now).sessionState = m.sessionState ↔ Inert m (.sessionSas sas key) := by
  cases hpeer : m.connectedPeer with
  | none => simp [Inert, hpeer, sessionState_sessionSas_nobody hpeer]
  | some peer =>
    cases sas with
    | none => simp [sessionSas, Inert]
    | some code =>
      have hinert : Inert m (.sessionSas (some code) key) ↔ m.ShowsSas peer code key := by
        simp [Inert, hpeer]
      rw [hinert, sessionState_sessionSas_peer hpeer, eq_comm]
      unfold ShowsSas
      cases m.identityMismatch (key.or peer.identityKeyB64) with
      | some mismatch =>
        obtain ⟨key', name, oldKey⟩ := mismatch
        simp only [sessionState, hpeer, SessionState.mk.injEq, Option.some.injEq, true_and, and_true]
        exact update_peer_eq_iff peer _ _
      | none =>
        simp only [sessionState, hpeer, SessionState.mk.injEq, Option.some.injEq, true_and, and_true]
        exact update_peer_eq_iff peer _ _

theorem sessionState_handleEvent {m m' : IpcManager} {event : DaemonEvent} {now : Date}
    (h : m.handleEvent event now = some m') : m'.sessionState = m.sessionState ↔ Inert m event := by
  cases event with
  | statusUpdate connectedPeers => exact sessionState_statusUpdate h
  | sessionConnected key =>
    obtain rfl := Option.some.inj h
    exact sessionState_sessionConnected m key
  | sessionSas sas key =>
    obtain rfl := Option.some.inj h
    exact sessionState_sessionSas m sas key now
  | sessionEnded reason | sessionError reason =>
    obtain rfl := Option.some.inj h
    rw [sessionState_disconnectSession, eq_comm]
    rfl
  | transferStarted fileName transferId direction fileSizeBytes =>
    simp only [handleEvent] at h
    rw [eq_comm]
    split at h
    . next hdirection =>
      obtain rfl := Option.some.inj h
      simp [sessionState, Inert, hdirection, and_comm]
    . next hdirection =>
      obtain rfl := Option.some.inj h
      simp [sessionState, Inert, hdirection, and_comm]
  | transferProgress progress transferId =>
    obtain rfl := Option.some.inj h
    rw [eq_comm]
    cases hphase : m.transferPhase <;> simp [sessionState, transferProgress, Inert, hphase]
  | bridgeDisconnected =>
    obtain rfl := Option.some.inj h
    rw [sessionState_stop, eq_comm]
    rfl
  | _ =>
    -- the event sets one field of the session at most
    obtain rfl := Option.some.inj h
    rw [eq_comm]
    simp [sessionState, Inert]

end IpcManager

end LocalBolt
