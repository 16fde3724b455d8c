import LocalBolt.App.Lemmas.Background
import LocalBolt.App.Lemmas.DialOut

/-!
This module contains the two facts that connect a WebTransport session to a browser: the peer's
acceptance arrives by signaling, the session is detected in the daemon log, and either can be first.
-/

namespace LocalBolt

namespace App

/--
The acceptance of a peer that cannot be dialled, as browsers cannot.
-/
def AcceptedBy (peer : DiscoveredPeer) (t : Transition App Action) : Prop :=
  ∃ signal, t.action = .incomingSignal signal ∧ signal.signalType = "connection_accepted"
    ∧ signal.fromPeer = peer.peerCode ∧ dialUrl signal = none

def DetectsSession (t : Transition App Action) : Prop :=
  t.action = .onWtSessionActive ∧ t.source.daemon.wtSessionActive = true

def IsPeer (stash : PeerSession) (peer : DiscoveredPeer) : Prop :=
  stash.peerCode = peer.peerCode ∧ stash.label = peer.label

def ConnectedPeer (s : App) (peer : DiscoveredPeer) : Prop :=
  s.ipc.sessionPhase = .connected ∧ ∃ stash, s.ipc.connectedPeer = some stash ∧ IsPeer stash peer

theorem AcceptedBy.not_detects {peer : DiscoveredPeer} {t : Transition App Action}
    (h : AcceptedBy peer t) : ¬ DetectsSession t := by
  rintro ⟨haction, -⟩
  obtain ⟨signal, hsignal, -⟩ := h
  simp [haction] at hsignal

theorem AcceptedBy.ipc {peer : DiscoveredPeer} {t : Transition App Action} (h : AcceptedBy peer t)
    (hnext : t.source.next t.action = some t.target) :
    t.target.ipc = t.source.ipc.beginConnecting.2 := by
  obtain ⟨signal, haction, htype, -⟩ := h
  have hstep := next_ipc hnext
  rw [haction, move, signalMove, htype] at hstep
  exact (Option.some.inj hstep).symm

theorem DetectsSession.ipc {t : Transition App Action} (h : DetectsSession t)
    (hnext : t.source.next t.action = some t.target)
    : t.target.ipc
        =
      ContentView.onWtSessionActive t.source.ipc true t.source.daemon.wtSessionSAS := by
  have hstep := next_ipc hnext
  rw [h.1, move, h.2] at hstep
  exact (Option.some.inj hstep).symm

theorem detected_isPeer_iff {m : IpcManager} {peer : DiscoveredPeer}
    (hphase : m.sessionPhase = .connecting) (hpeer : m.pendingInitiatorPeer = some peer)
    (sas : Option String)
    : (∃ stash, (ContentView.onWtSessionActive m true sas).connectedPeer = some stash
          ∧ IsPeer stash peer)
        ↔
      ∀ stash, m.pendingAcceptPeer = some stash → IsPeer stash peer := by
  rw [IpcManager.onWtSessionActive_connecting hphase]
  unfold ContentView.resolveWtPeer ContentView.applyWtVerificationCode
  cases haccept : m.pendingAcceptPeer <;> cases sas <;>
    simp [hpeer, IpcManager.setTrust, IsPeer, PeerSession.label, DiscoveredPeer.label]

theorem detected_sessionPhase {m : IpcManager} (hphase : m.sessionPhase = .connecting)
    (sas : Option String) :
    (ContentView.onWtSessionActive m true sas).sessionPhase = .connected := by
  rw [IpcManager.onWtSessionActive_connecting hphase]
  simp

theorem acceptance_and_detection_iff (peerCode : String) (daemonBinaryPath : Option String)
    {peer : DiscoveredPeer} {first second : Transition App Action}
    {tr : List (Transition App Action)}
    (hphase : first.source.ipc.sessionPhase = .requesting)
    (hpeer : first.source.ipc.pendingInitiatorPeer = some peer)
    (hfirst : first.source.next first.action = some first.target)
    (hwait : (machine peerCode daemonBinaryPath).Path first.target tr second.source)
    (hquiet : ∀ t ∈ tr, Background t)
    (hsecond : second.source.next second.action = some second.target)
    (horder : (AcceptedBy peer first ∧ DetectsSession second)
      ∨ (DetectsSession first ∧ AcceptedBy peer second))
    : second.target.ConnectedPeer peer
        ↔
      AcceptedBy peer first
        ∧ ∀ stash, first.source.ipc.pendingAcceptPeer = some stash → IsPeer stash peer := by
  rcases horder with ⟨haccepted, hdetects⟩ | ⟨hdetects, haccepted⟩
  . -- the acceptance moves the phase to `.connecting`, where the detection finds it
    have hipc₁ := haccepted.ipc hfirst
    rw [IpcManager.beginConnecting_of (.inl hphase)] at hipc₁
    have hwaited : second.source.ipc.attempt = first.target.ipc.attempt := by
      apply path_background hwait hquiet
      simp [hipc₁]
    rw [hipc₁] at hwaited
    have hconnecting : second.source.ipc.sessionPhase = .connecting :=
      congrArg Attempt.sessionPhase hwaited
    have hselected : second.source.ipc.pendingInitiatorPeer = some peer :=
      (congrArg Attempt.pendingInitiatorPeer hwaited).trans hpeer
    have hstash : second.source.ipc.pendingAcceptPeer = first.source.ipc.pendingAcceptPeer :=
      congrArg Attempt.pendingAcceptPeer hwaited
    rw [ConnectedPeer, hdetects.ipc hsecond, detected_isPeer_iff hconnecting hselected, hstash]
    simp [haccepted, detected_sessionPhase hconnecting]
  . -- the detection finds `.requesting` and does nothing, and it is not repeated
    have hipc₁ := hdetects.ipc hfirst
    rw [IpcManager.onWtSessionActive_of_not (by simp [hphase])] at hipc₁
    have hwaited : second.source.ipc.attempt = first.target.ipc.attempt := by
      apply path_background hwait hquiet
      simp [hipc₁, hphase]
    rw [hipc₁] at hwaited
    have hrequesting : second.source.ipc.sessionPhase = .requesting :=
      (congrArg Attempt.sessionPhase hwaited).trans hphase
    have hconnecting : second.target.ipc.sessionPhase = .connecting := by
      rw [haccepted.ipc hsecond, IpcManager.beginConnecting_of (.inl hrequesting)]
    constructor
    . rintro ⟨hconnected, -⟩
      simp [hconnecting] at hconnected
    . rintro ⟨haccepted, -⟩
      exact absurd hdetects haccepted.not_detects

def browser : DiscoveredPeer where
  peerCode := "B7H2MN"
  deviceName := "Bob"
  deviceType := "browser"
  wtUrl := none
  wtCertHash := none

def browserRequested : List Action := launch [browser] ++ [.initiateConnection browser ⟨"192.168.1.5", none⟩]

def browserAccepts : Action := .incomingSignal ⟨"B7H2MN", "connection_accepted", []⟩

def sessionRegistered : Action := .daemonPoll true (some "[WT_SESSION] ACTIVE_SESSION registered")

theorem browser_connects_after_acceptance
    : ∃ first second : Transition App Action,
        AcceptedBy browser first ∧ DetectsSession second ∧ second.target.ConnectedPeer browser := by
  have hrun : ((Machine.exec next (init "A3F9KQ" (some "bolt-daemon")) browserRequested).bind
      fun s => (s.next browserAccepts).bind
      fun s₁ => (Machine.exec next s₁ [sessionRegistered]).bind
      fun s₂ => (s₂.next .onWtSessionActive).map
      fun _ => decide (s.ipc.sessionPhase = .requesting)
        && decide (s.ipc.pendingInitiatorPeer = some browser)
        && decide (s.ipc.pendingAcceptPeer = none)
        && (Machine.trace next s₁ [sessionRegistered]).all (fun t => Background t)
        && s₂.daemon.wtSessionActive) = some true := by decide
  obtain ⟨s, -, hrun⟩ := Option.bind_eq_some_iff.mp hrun
  obtain ⟨s₁, hs₁, hrun⟩ := Option.bind_eq_some_iff.mp hrun
  obtain ⟨s₂, hs₂, hrun⟩ := Option.bind_eq_some_iff.mp hrun
  obtain ⟨s₃, hs₃, hrun⟩ := Option.map_eq_some_iff.mp hrun
  simp only [Bool.and_eq_true, decide_eq_true_eq, List.all_eq_true] at hrun
  obtain ⟨⟨⟨⟨hphase, hpeer⟩, hstash⟩, hquiet⟩, hactive⟩ := hrun
  have haccepted : AcceptedBy browser ⟨s, browserAccepts, s₁⟩ := ⟨_, rfl, rfl, rfl, rfl⟩
  have hdetects : DetectsSession ⟨s₂, .onWtSessionActive, s₃⟩ := ⟨rfl, hactive⟩
  refine ⟨_, _, haccepted, hdetects, (acceptance_and_detection_iff "A3F9KQ" (some "bolt-daemon")
    hphase hpeer hs₁ (Machine.path_trace hs₂) hquiet hs₃ (.inl ⟨haccepted, hdetects⟩)).mpr ?_⟩
  exact ⟨haccepted, by simp [hstash]⟩

theorem early_detection_is_lost
    : ∃ s, (rendered "A3F9KQ" (some "bolt-daemon")).Reachable s
        ∧ s.ipc.pendingInitiatorPeer = some browser
        ∧ s.daemon.wtSessionActive = true ∧ s.seen.wtSessionActive = true
        ∧ s.ipc.sessionPhase = .connecting := by
  have hlost : (Machine.exec renderedNext (init "A3F9KQ" (some "bolt-daemon"))
      (browserRequested ++ [sessionRegistered, .onWtSessionActive, browserAccepts])).any
        (fun s => s.ipc.pendingInitiatorPeer = some browser ∧ s.daemon.wtSessionActive = true
          ∧ s.seen.wtSessionActive = true ∧ s.ipc.sessionPhase = .connecting) = true := by decide
  obtain ⟨s, h, hlost⟩ := Machine.exists_reachable_of_exec hlost
  exact ⟨s, h, of_decide_eq_true hlost⟩

end App

end LocalBolt
