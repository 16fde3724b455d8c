import LocalBolt.Session.Lemmas.Change

/-!
This module contains what holds of the current attempt in every reachable state, what the phase
`.connected` is entered with, and what can change while it lasts.
-/

namespace LocalBolt

structure Attempt.Valid (a : Attempt) : Prop where
  connected : ∀ peer, a.connectedPeer = some peer → a.sessionPhase = .connected
  stashed : ∀ peer, a.pendingAcceptPeer = some peer → peer.trust ≠ .verified
  selected : a.sessionPhase = .idle → a.pendingInitiatorPeer = none

theorem Attempt.cleared_valid {phase : SessionPhase} : (Attempt.cleared phase).Valid := by
  constructor <;> simp [Attempt.cleared]

def Move.isMarkVerified : Move → Bool
  | .markVerified => true
  | _ => false

theorem isTransferAllowed_of_underReview {trust : TrustState} (h : trust.UnderReview)
    (phase : SessionPhase) : isTransferAllowed phase trust = false := by
  unfold isTransferAllowed
  cases trust <;> simp_all [TrustState.UnderReview]

theorem SessionPhase.Opening.ne_connected {phase : SessionPhase} (h : phase.Opening) :
    phase ≠ .connected := by
  rintro rfl
  simp [SessionPhase.Opening] at h

theorem Attempt.Valid.connectedPeer_eq_none {a : Attempt} (ha : a.Valid)
    (h : a.sessionPhase ≠ .connected) : a.connectedPeer = none := by
  by_contra hpeer
  obtain ⟨peer, hpeer⟩ := Option.ne_none_iff_exists'.mp hpeer
  exact h (ha.connected peer hpeer)

theorem Attempt.Valid.map_connectedPeer {a : Attempt} (ha : a.Valid) (f : PeerSession → PeerSession) :
    Attempt.Valid { a with connectedPeer := a.connectedPeer.map f } := by
  constructor
  . intro peer hpeer
    obtain ⟨peer', hpeer', -⟩ := Option.map_eq_some_iff.mp hpeer
    exact ha.connected peer' hpeer'
  . exact ha.stashed
  . exact ha.selected

theorem ne_connected_of_asking {phase : SessionPhase}
    (h : phase = .requesting ∨ phase = .incomingRequest) : phase ≠ .connected := by
  rintro rfl
  simp at h

namespace IpcManager

def stashedTrust (m : IpcManager) : Option TrustState :=
  match m.pendingAcceptPeer, m.pendingInitiatorPeer with
  | some peer, _ => some peer.trust
  | none, some _ => some .legacy
  | none, none => none

def initialTrust (m : IpcManager) : Move → Option TrustState
  | .event (.sessionConnected key) _ => m.stashedTrust.or (key.map fun _ => .legacy)
  | .wtSessionActive _ sas => m.stashedTrust.map fun trust => (sas.map .unverified).getD trust
  | _ => none

def transferGate (m : IpcManager) : Bool :=
  match m.connectedPeer with
  | some peer => isTransferAllowed m.sessionPhase peer.trust
  | none => false

theorem transferGate_eq (m : IpcManager) :
    m.transferGate = (m.connectedPeer.map (·.trust)).any (isTransferAllowed m.sessionPhase) := by
  unfold transferGate
  cases m.connectedPeer <;> rfl

theorem acceptPeer_trust (req : PairingRequest) : (acceptPeer req).trust ≠ .verified := by
  unfold acceptPeer
  dsimp only
  split <;> simp

theorem resolvePeer_trust {m : IpcManager} (hpeer : m.connectedPeer = none) (key : Option String)
    : (m.resolvePeer key).connectedPeer.map (·.trust)
        =
      m.stashedTrust.or (key.map fun _ => .legacy) := by
  unfold resolvePeer stashedTrust
  cases m.pendingAcceptPeer <;> cases m.pendingInitiatorPeer <;> cases key <;> simp [hpeer]

theorem resolveWtPeer_trust {m : IpcManager} (hpeer : m.connectedPeer = none) :
    (ContentView.resolveWtPeer m).connectedPeer.map (·.trust) = m.stashedTrust := by
  unfold ContentView.resolveWtPeer stashedTrust
  cases m.pendingAcceptPeer <;> cases m.pendingInitiatorPeer <;> simp [hpeer]

theorem applyWtVerificationCode_trust {m : IpcManager} (hphase : m.sessionPhase = .connected)
    (sas : Option String)
    : (ContentView.applyWtVerificationCode m sas).connectedPeer.map (·.trust)
        =
      (m.connectedPeer.map (·.trust)).map fun trust => (sas.map .unverified).getD trust := by
  unfold ContentView.applyWtVerificationCode
  cases sas with
  | none => simp [Function.comp_def]
  | some code => simp [hphase, setTrust, Function.comp_def]

/-! ### The invariant -/

theorem freshAttempt_valid {m : IpcManager} (hm : m.attempt.Valid) : m.freshAttempt.Valid := by
  unfold freshAttempt resetDisconnectedPresentationIfNeeded
  split
  . exact Attempt.cleared_valid
  . exact hm

theorem freshAttempt_connectedPeer {m : IpcManager} (hm : m.attempt.Valid)
    (h : m.sessionPhase.canStartFreshConnection = true) : m.freshAttempt.connectedPeer = none := by
  have hidle : m.freshAttempt.sessionPhase = .idle := resetDisconnected_sessionPhase h
  exact (freshAttempt_valid hm).connectedPeer_eq_none (by simp [hidle])

@[simp]
theorem resolvePeer_pendingAcceptPeer (m : IpcManager) (key : Option String) :
    (m.resolvePeer key).pendingAcceptPeer = none := by
  unfold resolvePeer
  split <;> simp_all

@[simp]
theorem resolveWtPeer_pendingAcceptPeer (m : IpcManager) :
    (ContentView.resolveWtPeer m).pendingAcceptPeer = none := by
  unfold ContentView.resolveWtPeer
  split <;> simp_all

@[simp]
theorem applyWtVerificationCode_pendingAcceptPeer (m : IpcManager) (sas : Option String) :
    (ContentView.applyWtVerificationCode m sas).pendingAcceptPeer = m.pendingAcceptPeer := by
  unfold ContentView.applyWtVerificationCode
  split
  . rfl
  . split <;> rfl

theorem Change.valid {m : IpcManager} {move : Move} {a : Attempt} (hm : m.attempt.Valid)
    (h : m.Change move a) : a.Valid := by
  cases h with
  | same => exact hm
  | reset | disconnect => exact Attempt.cleared_valid
  | request peer h =>
    constructor
    . simp [freshAttempt_connectedPeer hm h]
    . exact (freshAttempt_valid hm).stashed
    . simp
  | incoming h =>
    constructor
    . simp [freshAttempt_connectedPeer hm h]
    . exact (freshAttempt_valid hm).stashed
    . simp
  | connecting h =>
    have hpeer : m.connectedPeer = none := hm.connectedPeer_eq_none (ne_connected_of_asking h)
    constructor
    . simp [hpeer]
    . exact hm.stashed
    . simp
  | accept peerCode deviceName deviceType h =>
    have hpeer : m.connectedPeer = none := hm.connectedPeer_eq_none (ne_connected_of_asking h)
    constructor
    . simp [hpeer]
    . simp [ContentView.acceptedPeer]
    . simp
  | refuse => exact ⟨hm.connected, by simp, hm.selected⟩
  | stash _ _ req => exact ⟨hm.connected, by simp [acceptPeer_trust], hm.selected⟩
  | connect key now h => constructor <;> simp
  | wtConnect sas h => constructor <;> simp
  | approve => exact hm.map_connectedPeer _
  | review _ trust key h => exact hm.map_connectedPeer _

theorem Reachable.valid {m : IpcManager} (h : machine.Reachable m) : m.attempt.Valid := by
  refine Machine.Reachable.invariant (I := fun m => m.attempt.Valid) ?_ ?_ h
  . intro m hm
    simp only [machine, Machine.ofFun] at hm
    subst hm
    constructor <;> simp
  . intro m move m' _ hm h
    exact (step_change h).valid hm

/-! ### Entering the phase and staying in it -/

theorem Change.starts {m : IpcManager} {move : Move} {a : Attempt} (h : m.Change move a)
    (hsource : m.sessionPhase ≠ .connected) (htarget : a.sessionPhase = .connected) :
    m.sessionPhase.Opening
      ∧ ((∃ key now, move = .event (.sessionConnected key) now
            ∧ a = ({ m with sessionPhase := .connected }.resolvePeer key).attempt)
        ∨ ∃ sas, move = .wtSessionActive true sas
            ∧ a = (ContentView.applyWtVerificationCode
                (ContentView.resolveWtPeer { m with sessionPhase := .connected }) sas).attempt) := by
  cases h with
  | same | approve | review | refuse | stash => exact absurd htarget hsource
  | reset | disconnect => simp [Attempt.cleared] at htarget
  | request | incoming | connecting | accept => simp at htarget
  | connect key now h => exact ⟨h, .inl ⟨key, now, rfl, rfl⟩⟩
  | wtConnect sas h => exact ⟨.inr (.inr h), .inr ⟨sas, rfl, rfl⟩⟩

theorem Change.trust_starts {m : IpcManager} {move : Move} {a : Attempt} (hm : m.attempt.Valid)
    (h : m.Change move a) (hsource : m.sessionPhase ≠ .connected)
    (htarget : a.sessionPhase = .connected) :
    a.connectedPeer.map (·.trust) = m.initialTrust move := by
  have hpeer : m.connectedPeer = none := hm.connectedPeer_eq_none hsource
  obtain ⟨-, ⟨key, now, rfl, rfl⟩ | ⟨sas, rfl, rfl⟩⟩ := h.starts hsource htarget
  . exact resolvePeer_trust (m := { m with sessionPhase := .connected }) hpeer key
  . have hphase : (ContentView.resolveWtPeer { m with sessionPhase := .connected }).sessionPhase
        = .connected := by simp
    rw [attempt_connectedPeer, applyWtVerificationCode_trust hphase,
      resolveWtPeer_trust (m := { m with sessionPhase := .connected }) hpeer]
    rfl

theorem Change.trust_stays {m : IpcManager} {move : Move} {a : Attempt} (h : m.Change move a)
    (hsource : m.sessionPhase = .connected) (htarget : a.sessionPhase = .connected) :
    a.connectedPeer.map (·.trust) = m.connectedPeer.map (·.trust)
      ∨ (move = .markVerified ∧ a.connectedPeer = m.markVerified.connectedPeer)
      ∨ ∃ trust, trust.UnderReview
          ∧ a.connectedPeer.map (·.trust) = m.connectedPeer.map fun _ => trust := by
  cases h with
  | same | refuse | stash => exact .inl rfl
  | reset | disconnect => simp [Attempt.cleared] at htarget
  | request | incoming | connecting | accept => simp at htarget
  | connect key now h => exact absurd hsource h.ne_connected
  | wtConnect sas h => simp [h] at hsource
  | approve => exact .inr (.inl ⟨rfl, rfl⟩)
  | review _ trust key h => exact .inr (.inr ⟨trust, h, by simp [Function.comp_def]⟩)

end IpcManager

end LocalBolt
