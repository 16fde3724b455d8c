import LocalBolt.Session.Lemmas.Connected

/-!
This module contains the counterpart of an attempt, that is, the peer the user chose for it, and when
the connected session is shown with that peer.
-/

namespace LocalBolt

/--
The peer the user chose for the current attempt, by its code in signaling and by its device name and
type; `accepted` tells whether the stashed peer is the one the user accepted in this attempt.
-/
structure Counterpart where
  peerCode : Option String
  label : Option (String × String)
  accepted : Bool
  deriving DecidableEq

namespace Counterpart

def nobody : Counterpart where
  peerCode := none
  label := none
  accepted := false

def shown (c : Counterpart) : String × String := c.label.getD ("Peer", "desktop")

end Counterpart

def PeerSession.label (peer : PeerSession) : String × String := (peer.deviceName, peer.deviceType)

def DiscoveredPeer.label (peer : DiscoveredPeer) : String × String :=
  (peer.deviceName, peer.deviceType)

namespace IpcManager

def isRequested (m : IpcManager) : Bool :=
  m.pendingInitiatorPeer.isNone
    && (m.sessionPhase = .incomingRequest || m.sessionPhase = .connecting)

def counterpart : Observer IpcManager Move Counterpart where
  start := .nobody
  next c m move m' :=
    match move with
    | .beginRequest peer =>
      if m.sessionPhase.canStartFreshConnection then
        { peerCode := some peer.peerCode, label := some peer.label, accepted := false }
      else
        c
    | .accept peerCode deviceName deviceType =>
      if m.sessionPhase = .incomingRequest then
        { peerCode := some peerCode, label := some (deviceName, deviceType), accepted := true }
      else
        -- the stash is replaced or cleared, but nobody is waiting for this answer
        { c with accepted := false }
    | .sendPairingDecision _ decision =>
      match m.handle, m.pendingRequest with
      | some _, some req =>
        if decision.isAllow then
          -- an attempt that the user has opened keeps the peer it was opened for
          if m.isRequested then
            { c with label := some (req.deviceName, req.deviceType), accepted := true }
          else
            { c with accepted := false }
        else
          c
      | _, _ => c
    | .receiveRequest => if m.sessionPhase.canStartFreshConnection then .nobody else c
    | _ => if m'.sessionPhase.canStartFreshConnection then .nobody else c

def stashedLabel (m : IpcManager) : Option (String × String) :=
  match m.pendingAcceptPeer, m.pendingInitiatorPeer with
  | some peer, _ => some peer.label
  | none, some peer => some peer.label
  | none, none => none

def initialLabel (m : IpcManager) : Move → Option (String × String)
  | .event (.sessionConnected key) _ => m.stashedLabel.or (key.map fun _ => ("Peer", "desktop"))
  | .wtSessionActive _ _ => m.stashedLabel
  | _ => none

theorem resolvePeer_label {m : IpcManager} (hpeer : m.connectedPeer = none) (key : Option String)
    : (m.resolvePeer key).connectedPeer.map (·.label)
        =
      m.stashedLabel.or (key.map fun _ => ("Peer", "desktop")) := by
  unfold resolvePeer stashedLabel
  cases m.pendingAcceptPeer <;> cases m.pendingInitiatorPeer <;> cases key <;>
    simp [hpeer, PeerSession.label, DiscoveredPeer.label]

theorem resolveWtPeer_label {m : IpcManager} (hpeer : m.connectedPeer = none) :
    (ContentView.resolveWtPeer m).connectedPeer.map (·.label) = m.stashedLabel := by
  unfold ContentView.resolveWtPeer stashedLabel
  cases m.pendingAcceptPeer <;> cases m.pendingInitiatorPeer <;>
    simp [hpeer, PeerSession.label, DiscoveredPeer.label]

theorem applyWtVerificationCode_label (m : IpcManager) (sas : Option String)
    : (ContentView.applyWtVerificationCode m sas).connectedPeer.map (·.label)
        =
      m.connectedPeer.map (·.label) := by
  unfold ContentView.applyWtVerificationCode
  split
  . rfl
  . split
    . simp [setTrust, Function.comp_def, PeerSession.label]
    . rfl

theorem Change.label_starts {m : IpcManager} {move : Move} {a : Attempt} (hm : m.attempt.Valid)
    (h : m.Change move a) (hsource : m.sessionPhase ≠ .connected)
    (htarget : a.sessionPhase = .connected) :
    a.connectedPeer.map (·.label) = m.initialLabel move := by
  have hpeer : m.connectedPeer = none := hm.connectedPeer_eq_none hsource
  obtain ⟨-, ⟨key, now, rfl, rfl⟩ | ⟨sas, rfl, rfl⟩⟩ := h.starts hsource htarget
  . exact resolvePeer_label (m := { m with sessionPhase := .connected }) hpeer key
  . rw [attempt_connectedPeer, applyWtVerificationCode_label]
    exact resolveWtPeer_label (m := { m with sessionPhase := .connected }) hpeer

end IpcManager

/-! ### What the attempt keeps of its counterpart -/

structure Counterpart.Sound (m : IpcManager) (c : Counterpart) : Prop where
  accepted : m.sessionPhase.Opening → c.accepted = true →
    ∃ peer, m.pendingAcceptPeer = some peer ∧ c.label = some peer.label
  selected : m.sessionPhase.Opening → ∀ peer, m.pendingInitiatorPeer = some peer →
    c.label = some peer.label
  requested : m.sessionPhase = .incomingRequest → m.pendingInitiatorPeer = none

namespace Counterpart

theorem Sound.of_not_opening {m : IpcManager} {c : Counterpart} (h : ¬ m.sessionPhase.Opening) :
    Sound m c := by
  constructor
  . intro hopen
    exact absurd hopen h
  . intro hopen
    exact absurd hopen h
  . intro hphase
    exact absurd (.inr (.inl hphase)) h

theorem Sound.unaccepted {m m' : IpcManager} {c : Counterpart} (h : Sound m c)
    (hopen : m'.sessionPhase.Opening → m.sessionPhase.Opening)
    (hrequested : m'.sessionPhase = .incomingRequest → m.sessionPhase = .incomingRequest)
    (hselected : m'.pendingInitiatorPeer = m.pendingInitiatorPeer) :
    Sound m' { c with accepted := false } := by
  constructor
  . simp
  . intro hopen'
    rw [hselected]
    exact h.selected (hopen hopen')
  . intro hphase
    rw [hselected]
    exact h.requested (hrequested hphase)

end Counterpart

theorem SessionPhase.Opening.not_fresh {phase : SessionPhase} (h : phase.Opening) :
    phase.canStartFreshConnection = false := by
  rcases h with rfl | rfl | rfl <;> rfl

def Move.choosesPeer : Move → Bool
  | .beginRequest _ => true
  | .receiveRequest => true
  | .accept _ _ _ => true
  | .sendPairingDecision _ _ => true
  | _ => false

namespace IpcManager

theorem counterpart_next_of_not_chooses {move : Move} (h : move.choosesPeer = false)
    (c : Counterpart) (m m' : IpcManager)
    : counterpart.next c m move m'
        =
      if m'.sessionPhase.canStartFreshConnection then .nobody else c := by
  cases move with
  | beginRequest | receiveRequest | accept | sendPairingDecision => simp [Move.choosesPeer] at h
  | _ => rfl

theorem Change.opening {m : IpcManager} {move : Move} {a : Attempt} (h : m.Change move a)
    (hmove : move.choosesPeer = false) (hopen : a.sessionPhase.Opening) :
    m.sessionPhase.Opening
      ∧ a.pendingAcceptPeer = m.pendingAcceptPeer
      ∧ a.pendingInitiatorPeer = m.pendingInitiatorPeer
      ∧ (a.sessionPhase = .incomingRequest → m.sessionPhase = .incomingRequest) := by
  cases h with
  | same | approve | review => exact ⟨hopen, rfl, rfl, id⟩
  | reset | disconnect => simp [Attempt.cleared, SessionPhase.Opening] at hopen
  | connecting h =>
    refine ⟨?_, rfl, rfl, by simp⟩
    unfold SessionPhase.Opening
    tauto
  | connect key now h => simp [SessionPhase.Opening] at hopen
  | wtConnect sas h => simp [SessionPhase.Opening] at hopen
  | request | incoming | accept | refuse | stash => simp [Move.choosesPeer] at hmove

theorem freshAttempt_pendingInitiatorPeer {m : IpcManager} (hm : m.attempt.Valid)
    (h : m.sessionPhase.canStartFreshConnection = true) :
    m.resetDisconnectedPresentationIfNeeded.pendingInitiatorPeer = none := by
  exact (freshAttempt_valid hm).selected (resetDisconnected_sessionPhase h)

theorem counterpart_sound_beginRequest {m : IpcManager} {c : Counterpart} (ih : Counterpart.Sound m c)
    (peer : DiscoveredPeer) (m' : IpcManager) :
    Counterpart.Sound (m.beginRequest peer).2 (counterpart.next c m (.beginRequest peer) m') := by
  by_cases hfresh : m.sessionPhase.canStartFreshConnection = true
  . rw [beginRequest_of_fresh hfresh]
    constructor <;> simp [counterpart, hfresh]
  . rw [beginRequest_of_not hfresh]
    simpa [counterpart, hfresh] using ih

theorem counterpart_sound_receiveRequest {m : IpcManager} {c : Counterpart} (hm : m.attempt.Valid)
    (ih : Counterpart.Sound m c) (m' : IpcManager) :
    Counterpart.Sound m.receiveRequest.2 (counterpart.next c m .receiveRequest m') := by
  by_cases hfresh : m.sessionPhase.canStartFreshConnection = true
  . have hnone := freshAttempt_pendingInitiatorPeer hm hfresh
    rw [receiveRequest_of_fresh hfresh]
    constructor <;> simp [counterpart, hfresh, Counterpart.nobody, hnone]
  . rw [receiveRequest_of_not hfresh]
    simpa [counterpart, hfresh] using ih

theorem counterpart_sound_accept {m : IpcManager} {c : Counterpart} (ih : Counterpart.Sound m c)
    (peerCode deviceName deviceType : String) (m' : IpcManager) :
    Counterpart.Sound (ContentView.accept m peerCode deviceName deviceType).2
      (counterpart.next c m (.accept peerCode deviceName deviceType) m') := by
  by_cases hphase : m.sessionPhase = .incomingRequest
  . have hreq := ih.requested hphase
    rw [accept_of (.inr hphase)]
    constructor <;>
      simp [counterpart, hphase, hreq, ContentView.acceptedPeer, PeerSession.label]
  . have hnext : counterpart.next c m (.accept peerCode deviceName deviceType) m'
        = { c with accepted := false } := by simp [counterpart, hphase]
    rw [hnext]
    by_cases hopen : m.sessionPhase = .requesting ∨ m.sessionPhase = .incomingRequest
    . rw [accept_of hopen]
      apply ih.unaccepted
      . intro _
        unfold SessionPhase.Opening
        tauto
      . simp
      . rfl
    . rw [accept_of_not hopen]
      exact ih.unaccepted id id rfl

theorem counterpart_sound_decision {m : IpcManager} {c : Counterpart} (ih : Counterpart.Sound m c)
    (requestId : String) (decision : PairingDecision) (m' : IpcManager) :
    Counterpart.Sound (m.sendPairingDecision requestId decision)
      (counterpart.next c m (.sendPairingDecision requestId decision) m') := by
  unfold sendPairingDecision
  cases hhandle : m.handle with
  | none => simpa [counterpart, hhandle] using ih
  | some b =>
    cases hreq : m.pendingRequest with
    | none => exact ⟨by simpa [counterpart, hhandle, hreq] using ih.accepted,
        by simpa [counterpart, hhandle, hreq] using ih.selected, ih.requested⟩
    | some req =>
      cases hallow : decision.isAllow with
      | false =>
        simp only [counterpart, hhandle, hreq, hallow]
        exact ⟨ih.accepted, ih.selected, ih.requested⟩
      | true =>
        cases hrequested : m.isRequested with
        | false =>
          simp only [counterpart, hhandle, hreq, hallow, hrequested]
          exact ih.unaccepted id id rfl
        | true =>
          have hnone : m.pendingInitiatorPeer = none := by
            simp only [isRequested, Bool.and_eq_true] at hrequested
            exact Option.isNone_iff_eq_none.mp hrequested.1
          simp only [counterpart, hhandle, hreq, hallow, hrequested]
          constructor <;> simp [hnone, acceptPeer, PeerSession.label]

theorem counterpart_sound_step {m m' : IpcManager} {move : Move} {c : Counterpart}
    (hm : m.attempt.Valid) (ih : Counterpart.Sound m c) (h : m.step move = some m') :
    Counterpart.Sound m' (counterpart.next c m move m') := by
  cases hmove : move.choosesPeer with
  | true =>
    cases move with
    | beginRequest peer =>
      obtain rfl := Option.some.inj h
      exact counterpart_sound_beginRequest ih peer _
    | receiveRequest =>
      obtain rfl := Option.some.inj h
      exact counterpart_sound_receiveRequest hm ih _
    | accept peerCode deviceName deviceType =>
      obtain rfl := Option.some.inj h
      exact counterpart_sound_accept ih peerCode deviceName deviceType _
    | sendPairingDecision requestId decision =>
      obtain rfl := Option.some.inj h
      exact counterpart_sound_decision ih requestId decision _
    | _ => simp [Move.choosesPeer] at hmove
  | false =>
    -- nothing is claimed of a phase in which no attempt waits for its session
    by_cases hopen : m'.sessionPhase.Opening
    . obtain ⟨hsource, haccept, hselect, hreq⟩ := (step_change h).opening hmove hopen
      rw [attempt_pendingAcceptPeer] at haccept
      rw [attempt_pendingInitiatorPeer] at hselect
      rw [counterpart_next_of_not_chooses hmove, hopen.not_fresh]
      constructor
      . intro _
        rw [haccept]
        exact ih.accepted hsource
      . intro _
        rw [hselect]
        exact ih.selected hsource
      . intro hphase
        rw [hselect]
        exact ih.requested (hreq hphase)
    . exact .of_not_opening hopen

theorem counterpart_sound {m : IpcManager} {c : Counterpart}
    (h : (machine.observed counterpart).Reachable (m, c)) : Counterpart.Sound m c := by
  refine Machine.Reachable.invariant (I := fun p => Counterpart.Sound p.1 p.2) ?_ ?_ h
  . rintro ⟨m, c⟩ ⟨hinit, -⟩
    simp only [machine, Machine.ofFun] at hinit
    subst hinit
    apply Counterpart.Sound.of_not_opening
    simp [SessionPhase.Opening]
  . rintro ⟨m, c⟩ move ⟨m', c'⟩ hreach ih ⟨hstep, hnext⟩
    have hm : m.attempt.Valid := Reachable.valid hreach.of_observed
    dsimp only at hstep hnext ⊢
    rw [hnext]
    exact counterpart_sound_step hm ih hstep

/-! ### The peer a session is shown with -/

def Connects {γ : Type} (t : Transition (IpcManager × γ) Move) : Prop :=
  t.source.1.sessionPhase ≠ .connected ∧ t.target.1.sessionPhase = .connected

instance {γ : Type} : DecidablePred (@Connects γ) := fun _ => instDecidableAnd

/--
The stash is the one the user accepted in this attempt; if there is none, the user has selected the
peer, or has chosen nobody and the daemon reports an identity. (Two peers with one label do not
matter.)
-/
def Recognised (m : IpcManager) (c : Counterpart) (move : Move) : Prop :=
  match m.pendingAcceptPeer, m.pendingInitiatorPeer with
  | some peer, _ => c.accepted = true ∨ peer.label = c.shown
  | none, some _ => True
  | none, none =>
    (∃ key now, move = .event (.sessionConnected (some key)) now) ∧ c.shown = ("Peer", "desktop")

theorem initialLabel_iff_recognised {m : IpcManager} {c : Counterpart} {move : Move}
    (hc : Counterpart.Sound m c) (hopen : m.sessionPhase.Opening)
    (hmove : (∃ key now, move = .event (.sessionConnected key) now)
      ∨ ∃ sas, move = .wtSessionActive true sas) :
    m.initialLabel move = some c.shown ↔ Recognised m c move := by
  unfold Recognised
  cases haccept : m.pendingAcceptPeer with
  | some peer =>
    have hlabel : m.initialLabel move = some peer.label := by
      rcases hmove with ⟨key, now, rfl⟩ | ⟨sas, rfl⟩ <;> simp [initialLabel, stashedLabel, haccept]
    rw [hlabel, Option.some.injEq]
    constructor
    . exact .inr
    . rintro (haccepted | hshown)
      . obtain ⟨peer', hpeer', hc⟩ := hc.accepted hopen haccepted
        rw [haccept, Option.some.injEq] at hpeer'
        subst hpeer'
        simp [Counterpart.shown, hc]
      . exact hshown
  | none =>
    cases hselect : m.pendingInitiatorPeer with
    | some peer =>
      have hlabel : m.initialLabel move = some peer.label := by
        rcases hmove with ⟨key, now, rfl⟩ | ⟨sas, rfl⟩ <;>
          simp [initialLabel, stashedLabel, haccept, hselect]
      rw [hlabel]
      simp [Counterpart.shown, hc.selected hopen peer hselect]
    | none =>
      rcases hmove with ⟨key, now, rfl⟩ | ⟨sas, rfl⟩
      . cases key <;> simp [initialLabel, stashedLabel, haccept, hselect, eq_comm]
      . simp [initialLabel, stashedLabel, haccept, hselect]

end IpcManager

end LocalBolt
