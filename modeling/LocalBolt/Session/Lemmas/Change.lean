import LocalBolt.Session.Lemmas.Frame

/-!
This module contains the inversion lemma for the moves of the session manager: what one move can do
to the current attempt, that is, to the phase and the three places that hold a peer.
-/

namespace LocalBolt

structure Attempt where
  sessionPhase : SessionPhase
  connectedPeer : Option PeerSession
  pendingAcceptPeer : Option PeerSession
  pendingInitiatorPeer : Option DiscoveredPeer

namespace Attempt

def cleared (phase : SessionPhase) : Attempt where
  sessionPhase := phase
  connectedPeer := none
  pendingAcceptPeer := none
  pendingInitiatorPeer := none

end Attempt

def SessionPhase.Opening (phase : SessionPhase) : Prop :=
  phase = .requesting ∨ phase = .incomingRequest ∨ phase = .connecting

def TrustState.UnderReview : TrustState → Prop
  | .unverified _ => True
  | .mismatch _ _ => True
  | .verified => False
  | .legacy => False

namespace IpcManager

def attempt (m : IpcManager) : Attempt where
  sessionPhase := m.sessionPhase
  connectedPeer := m.connectedPeer
  pendingAcceptPeer := m.pendingAcceptPeer
  pendingInitiatorPeer := m.pendingInitiatorPeer

@[simp]
theorem attempt_sessionPhase (m : IpcManager) : m.attempt.sessionPhase = m.sessionPhase := by rfl

@[simp]
theorem attempt_connectedPeer (m : IpcManager) : m.attempt.connectedPeer = m.connectedPeer := by rfl

@[simp]
theorem attempt_pendingAcceptPeer (m : IpcManager) :
    m.attempt.pendingAcceptPeer = m.pendingAcceptPeer := by rfl

@[simp]
theorem attempt_pendingInitiatorPeer (m : IpcManager) :
    m.attempt.pendingInitiatorPeer = m.pendingInitiatorPeer := by rfl

@[simp]
theorem attempt_resetSession (m : IpcManager) : m.resetSession.attempt = .cleared .idle := by rfl

@[simp]
theorem attempt_disconnectSession (m : IpcManager) (reason : String) :
    (m.disconnectSession reason).attempt = .cleared (.disconnected reason) := by rfl

/--
The attempt as a fresh connection finds it: a notice of an ended session is dismissed first.
-/
def freshAttempt (m : IpcManager) : Attempt := m.resetDisconnectedPresentationIfNeeded.attempt

/--
`m.Change move a`: the move can leave the session manager `m` with the attempt `a`.
-/
inductive Change (m : IpcManager) : Move → Attempt → Prop where
  | same (move : Move) : Change m move m.attempt
  | reset (move : Move) : Change m move (.cleared .idle)
  | disconnect (move : Move) (reason : String) : Change m move (.cleared (.disconnected reason))
  | request (peer : DiscoveredPeer) (h : m.sessionPhase.canStartFreshConnection = true) :
      Change m (.beginRequest peer)
        { m.freshAttempt with sessionPhase := .requesting, pendingInitiatorPeer := some peer }
  | incoming (h : m.sessionPhase.canStartFreshConnection = true) :
      Change m .receiveRequest { m.freshAttempt with sessionPhase := .incomingRequest }
  | connecting (h : m.sessionPhase = .requesting ∨ m.sessionPhase = .incomingRequest) :
      Change m .beginConnecting { m.attempt with sessionPhase := .connecting }
  | accept (peerCode deviceName deviceType : String)
      (h : m.sessionPhase = .requesting ∨ m.sessionPhase = .incomingRequest) :
      Change m (.accept peerCode deviceName deviceType)
        { m.attempt with
          sessionPhase := .connecting
          pendingAcceptPeer := some (ContentView.acceptedPeer peerCode deviceName deviceType) }
  | refuse (peerCode deviceName deviceType : String)
      (h : ¬ (m.sessionPhase = .requesting ∨ m.sessionPhase = .incomingRequest)) :
      Change m (.accept peerCode deviceName deviceType) { m.attempt with pendingAcceptPeer := none }
  | stash (requestId : String) (decision : PairingDecision) (req : PairingRequest)
      (hallow : decision.isAllow = true) (hreq : m.pendingRequest = some req) :
      Change m (.sendPairingDecision requestId decision)
        { m.attempt with pendingAcceptPeer := some (acceptPeer req) }
  | connect (key : Option String) (now : Date) (h : m.sessionPhase.Opening) :
      Change m (.event (.sessionConnected key) now)
        ({ m with sessionPhase := .connected }.resolvePeer key).attempt
  | wtConnect (sas : Option String) (h : m.sessionPhase = .connecting) :
      Change m (.wtSessionActive true sas)
        (ContentView.applyWtVerificationCode
          (ContentView.resolveWtPeer { m with sessionPhase := .connected }) sas).attempt
  | approve : Change m .markVerified m.markVerified.attempt
  | review (move : Move) (trust : TrustState) (key : Option String) (h : trust.UnderReview) :
      Change m move
        { m.attempt with
          connectedPeer := m.connectedPeer.map fun peer =>
            { peer with trust, identityKeyB64 := key.or peer.identityKeyB64 } }

/-! ### Spec lemmas of the transitions -/

theorem resetDisconnected_sessionPhase {m : IpcManager}
    (h : m.sessionPhase.canStartFreshConnection = true) :
    m.resetDisconnectedPresentationIfNeeded.sessionPhase = .idle := by
  unfold resetDisconnectedPresentationIfNeeded
  cases hphase : m.sessionPhase <;>
    simp_all [SessionPhase.canStartFreshConnection, resetSession]

theorem resetDisconnected_of_not {m : IpcManager}
    (h : ¬ m.sessionPhase.canStartFreshConnection = true) :
    m.resetDisconnectedPresentationIfNeeded = m ∧ m.sessionPhase ≠ .idle := by
  unfold resetDisconnectedPresentationIfNeeded
  cases hphase : m.sessionPhase <;> simp_all [SessionPhase.canStartFreshConnection]

theorem beginRequest_of_fresh {m : IpcManager} (h : m.sessionPhase.canStartFreshConnection = true)
    (peer : DiscoveredPeer)
    : m.beginRequest peer
        =
      (true, { m.resetDisconnectedPresentationIfNeeded with
        sessionPhase := .requesting, pendingInitiatorPeer := some peer }) := by
  simp [beginRequest, resetDisconnected_sessionPhase h]

theorem beginRequest_of_not {m : IpcManager} (h : ¬ m.sessionPhase.canStartFreshConnection = true)
    (peer : DiscoveredPeer) : m.beginRequest peer = (false, m) := by
  obtain ⟨hm, hidle⟩ := resetDisconnected_of_not h
  simp [beginRequest, hm, hidle]

theorem receiveRequest_of_fresh {m : IpcManager}
    (h : m.sessionPhase.canStartFreshConnection = true)
    : m.receiveRequest
        =
      (true, { m.resetDisconnectedPresentationIfNeeded with sessionPhase := .incomingRequest }) := by
  simp [receiveRequest, resetDisconnected_sessionPhase h]

theorem receiveRequest_of_not {m : IpcManager}
    (h : ¬ m.sessionPhase.canStartFreshConnection = true) : m.receiveRequest = (false, m) := by
  obtain ⟨hm, hidle⟩ := resetDisconnected_of_not h
  simp [receiveRequest, hm, hidle]

theorem beginConnecting_of {m : IpcManager}
    (h : m.sessionPhase = .requesting ∨ m.sessionPhase = .incomingRequest) :
    m.beginConnecting = (true, { m with sessionPhase := .connecting }) := by
  simp [beginConnecting, h]

theorem beginConnecting_of_not {m : IpcManager}
    (h : ¬ (m.sessionPhase = .requesting ∨ m.sessionPhase = .incomingRequest)) :
    m.beginConnecting = (false, m) := by
  simp [beginConnecting, h]

theorem sessionConnected_of_opening {m : IpcManager} (h : m.sessionPhase.Opening)
    (key : Option String)
    : m.sessionConnected key = { m with sessionPhase := .connected }.resolvePeer key := by
  unfold sessionConnected
  split
  . next hphase => simp [beginConnecting, hphase, markConnected]
  . next hphase =>
    have : m.sessionPhase = .connecting := by
      unfold SessionPhase.Opening at h
      tauto
    simp [markConnected, this]

theorem sessionConnected_of_not_opening {m : IpcManager} (h : ¬ m.sessionPhase.Opening)
    (key : Option String) : m.sessionConnected key = m := by
  unfold SessionPhase.Opening at h
  have hphase : ¬ (m.sessionPhase = .requesting ∨ m.sessionPhase = .incomingRequest) := by tauto
  have hconnecting : ¬ m.sessionPhase = .connecting := by tauto
  simp [sessionConnected, hphase, markConnected, hconnecting]

theorem accept_of {m : IpcManager}
    (h : m.sessionPhase = .requesting ∨ m.sessionPhase = .incomingRequest)
    (peerCode deviceName deviceType : String)
    : ContentView.accept m peerCode deviceName deviceType
        =
      (true, { m with
        sessionPhase := .connecting
        pendingAcceptPeer := some (ContentView.acceptedPeer peerCode deviceName deviceType) }) := by
  simp [ContentView.accept, beginConnecting, h]

theorem accept_of_not {m : IpcManager}
    (h : ¬ (m.sessionPhase = .requesting ∨ m.sessionPhase = .incomingRequest))
    (peerCode deviceName deviceType : String)
    : ContentView.accept m peerCode deviceName deviceType
        =
      (false, { m with pendingAcceptPeer := none }) := by
  simp [ContentView.accept, beginConnecting, h]

@[simp]
theorem resolveWtPeer_sessionPhase (m : IpcManager) :
    (ContentView.resolveWtPeer m).sessionPhase = m.sessionPhase := by
  unfold ContentView.resolveWtPeer
  split <;> rfl

@[simp]
theorem resolvePeer_sessionPhase (m : IpcManager) (key : Option String) :
    (m.resolvePeer key).sessionPhase = m.sessionPhase := by
  unfold resolvePeer
  split <;> rfl

@[simp]
theorem applyWtVerificationCode_sessionPhase (m : IpcManager) (sas : Option String) :
    (ContentView.applyWtVerificationCode m sas).sessionPhase = m.sessionPhase := by
  unfold ContentView.applyWtVerificationCode
  split
  . rfl
  . split <;> rfl

theorem onWtSessionActive_connecting {m : IpcManager} (h : m.sessionPhase = .connecting)
    (sas : Option String)
    : ContentView.onWtSessionActive m true sas
        =
      ContentView.applyWtVerificationCode
        (ContentView.resolveWtPeer { m with sessionPhase := .connected }) sas := by
  simp [ContentView.onWtSessionActive, h, markConnected]

theorem onWtSessionActive_of_not {m : IpcManager} (h : m.sessionPhase ≠ .connecting)
    (sas : Option String) : ContentView.onWtSessionActive m true sas = m := by
  simp [ContentView.onWtSessionActive, h]

theorem onWtSessionActive_connected {m : IpcManager} (h : m.sessionPhase = .connected)
    (sas : Option String)
    : ContentView.onWtSessionActive m false sas = m.disconnectSession "WT session ended" := by
  simp [ContentView.onWtSessionActive, h]

theorem onWtSessionActive_false_of_not {m : IpcManager} (h : m.sessionPhase ≠ .connected)
    (sas : Option String) : ContentView.onWtSessionActive m false sas = m := by
  simp [ContentView.onWtSessionActive, h]

/-! ### The inversion lemma -/

theorem applyWtVerificationCode_change (m : IpcManager) (move : Move) (sas : Option String) :
    m.Change move (ContentView.applyWtVerificationCode m sas).attempt := by
  unfold ContentView.applyWtVerificationCode
  split
  . exact .same move
  . next code =>
    split
    . exact .review move (.unverified code) none trivial
    . exact .same move

theorem sessionSas_change (m : IpcManager) (move : Move) (sas key : Option String) (now : Date) :
    m.Change move (m.sessionSas sas key now).attempt := by
  unfold sessionSas
  split
  . exact .same move
  . next code =>
    dsimp only
    split
    . next k name oldKey _ =>
      have := Change.review (m := m) move (.mismatch name oldKey) (some k) trivial
      simpa [attempt, setIdentityKey, setTrust, Function.comp_def] using this
    . split
      . next k _ =>
        have := Change.review (m := m) move (.unverified code) (some k) trivial
        simpa [attempt, setIdentityKey, setTrust, Function.comp_def] using this
      . exact .review move (.unverified code) none trivial

theorem handleEvent_change {m m' : IpcManager} {event : DaemonEvent} {now : Date}
    (h : m.handleEvent event now = some m') : m.Change (.event event now) m'.attempt := by
  cases event with
  | statusUpdate connectedPeers =>
    simp only [handleEvent, statusUpdate] at h
    split at h
    . simp at h
    . split at h
      . simp only [Option.some.injEq] at h
        subst h
        exact .disconnect _ _
      . simp only [Option.some.injEq] at h
        subst h
        exact .same _
  | sessionConnected key =>
    simp only [handleEvent, Option.some.injEq] at h
    subst h
    by_cases hopen : m.sessionPhase.Opening
    . rw [sessionConnected_of_opening hopen]
      exact .connect key now hopen
    . rw [sessionConnected_of_not_opening hopen]
      exact .same _
  | sessionSas sas key =>
    simp only [handleEvent, Option.some.injEq] at h
    subst h
    exact sessionSas_change m _ sas key now
  | sessionEnded reason =>
    simp only [handleEvent, Option.some.injEq] at h
    subst h
    exact .disconnect _ _
  | sessionError reason =>
    simp only [handleEvent, Option.some.injEq] at h
    subst h
    exact .disconnect _ _
  | transferStarted fileName transferId direction fileSizeBytes =>
    simp only [handleEvent] at h
    split at h <;>
      . simp only [Option.some.injEq] at h
        subst h
        exact .same _
  | transferProgress progress transferId =>
    simp only [handleEvent, transferProgress, Option.some.injEq] at h
    subst h
    split <;> exact .same _
  | bridgeDisconnected =>
    simp only [handleEvent, Option.some.injEq] at h
    subst h
    exact .reset _
  | _ =>
    simp only [handleEvent, Option.some.injEq] at h
    subst h
    exact .same _

@[simp]
theorem attempt_start (m : IpcManager) (file : Option Json) (connects : Bool) :
    (m.start file connects).attempt = m.attempt := by
  unfold start
  dsimp only
  split <;> split <;> (try split) <;> rfl

@[simp]
theorem attempt_poll (m : IpcManager) (connected : Bool) : (m.poll connected).attempt = m.attempt := by
  unfold poll
  split <;> rfl

theorem sendPairingDecision_change (m : IpcManager) (requestId : String)
    (decision : PairingDecision) :
    m.Change (.sendPairingDecision requestId decision)
      (m.sendPairingDecision requestId decision).attempt := by
  unfold sendPairingDecision
  split
  . exact .same _
  . dsimp only
    split
    . next req hreq =>
      split
      . next hallow => exact .stash requestId decision req hallow hreq
      . exact .same _
    . exact .same _

theorem beginRequest_change (m : IpcManager) (peer : DiscoveredPeer) :
    m.Change (.beginRequest peer) (m.beginRequest peer).2.attempt := by
  by_cases h : m.sessionPhase.canStartFreshConnection = true
  . rw [beginRequest_of_fresh h]
    exact .request peer h
  . rw [beginRequest_of_not h]
    exact .same _

theorem receiveRequest_change (m : IpcManager) :
    m.Change .receiveRequest m.receiveRequest.2.attempt := by
  by_cases h : m.sessionPhase.canStartFreshConnection = true
  . rw [receiveRequest_of_fresh h]
    exact .incoming h
  . rw [receiveRequest_of_not h]
    exact .same _

theorem beginConnecting_change (m : IpcManager) :
    m.Change .beginConnecting m.beginConnecting.2.attempt := by
  by_cases h : m.sessionPhase = .requesting ∨ m.sessionPhase = .incomingRequest
  . rw [beginConnecting_of h]
    exact .connecting h
  . rw [beginConnecting_of_not h]
    exact .same _

theorem accept_change (m : IpcManager) (peerCode deviceName deviceType : String) :
    m.Change (.accept peerCode deviceName deviceType)
      (ContentView.accept m peerCode deviceName deviceType).2.attempt := by
  by_cases h : m.sessionPhase = .requesting ∨ m.sessionPhase = .incomingRequest
  . rw [accept_of h]
    exact .accept peerCode deviceName deviceType h
  . rw [accept_of_not h]
    exact .refuse peerCode deviceName deviceType h

theorem dismissDisconnect_change (m : IpcManager) :
    m.Change .dismissDisconnect m.dismissDisconnect.attempt := by
  unfold dismissDisconnect
  split
  . exact .reset _
  . exact .same _

theorem onWtSessionActive_change (m : IpcManager) (active : Bool) (sas : Option String) :
    m.Change (.wtSessionActive active sas) (ContentView.onWtSessionActive m active sas).attempt := by
  cases active with
  | true =>
    by_cases h : m.sessionPhase = .connecting
    . rw [onWtSessionActive_connecting h]
      exact .wtConnect sas h
    . rw [onWtSessionActive_of_not h]
      exact .same _
  | false =>
    by_cases h : m.sessionPhase = .connected
    . rw [onWtSessionActive_connected h]
      exact .disconnect _ _
    . rw [onWtSessionActive_false_of_not h]
      exact .same _

theorem step_change {m m' : IpcManager} {move : Move} (h : m.step move = some m') :
    m.Change move m'.attempt := by
  cases move with
  | event event now => exact handleEvent_change h
  | start file connects =>
    obtain rfl := Option.some.inj h
    rw [attempt_start]
    exact .same _
  | poll connected =>
    obtain rfl := Option.some.inj h
    rw [attempt_poll]
    exact .same _
  | beginRequest peer =>
    obtain rfl := Option.some.inj h
    exact beginRequest_change m peer
  | receiveRequest =>
    obtain rfl := Option.some.inj h
    exact receiveRequest_change m
  | beginConnecting =>
    obtain rfl := Option.some.inj h
    exact beginConnecting_change m
  | accept peerCode deviceName deviceType =>
    obtain rfl := Option.some.inj h
    exact accept_change m peerCode deviceName deviceType
  | resetSession =>
    obtain rfl := Option.some.inj h
    exact .reset _
  | disconnectSession reason =>
    obtain rfl := Option.some.inj h
    exact .disconnect _ _
  | dismissDisconnect =>
    obtain rfl := Option.some.inj h
    exact dismissDisconnect_change m
  | sendPairingDecision requestId decision =>
    obtain rfl := Option.some.inj h
    exact sendPairingDecision_change m requestId decision
  | markVerified =>
    obtain rfl := Option.some.inj h
    exact .approve
  | wtSessionActive active sas =>
    obtain rfl := Option.some.inj h
    exact onWtSessionActive_change m active sas
  | wtSessionSAS sas =>
    obtain rfl := Option.some.inj h
    exact applyWtVerificationCode_change m _ sas
  | _ =>
    -- the remaining moves touch the bridge or the transfer only
    obtain rfl := Option.some.inj h
    exact .same _

end IpcManager

end LocalBolt
