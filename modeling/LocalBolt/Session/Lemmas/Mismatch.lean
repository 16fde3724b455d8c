import LocalBolt.Session.Lemmas.Connected

/-!
This module contains the lifetime of an identity mismatch: how long it keeps the transfer gate
closed.
-/

namespace LocalBolt

namespace IpcManager

def showsMismatch (m : IpcManager) : Bool :=
  match m.connectedPeer with
  | some { trust := .mismatch _ _, .. } => true
  | _ => false

def mismatchSeen : Observer IpcManager Move Bool where
  start := false
  next seen _ move m' :=
    let reported :=
      match move with
      | .event (.sessionSas _ _) _ => m'.showsMismatch
      | _ => false
    m'.sessionPhase = .connected && (seen || reported)

theorem transferGate_of_showsMismatch {m : IpcManager} (h : m.showsMismatch = true) :
    m.transferGate = false := by
  unfold showsMismatch at h
  unfold transferGate
  split at h
  . next hpeer =>
    rw [hpeer]
    apply isTransferAllowed_of_underReview
    trivial
  . simp at h

theorem connected_of_mismatchSeen {m : IpcManager} {seen : Bool}
    (h : (machine.observed mismatchSeen).Reachable (m, seen)) (hseen : seen = true) :
    m.sessionPhase = .connected ∧ m.connectedPeer.isSome = true := by
  have hinv := Machine.Reachable.invariant
    (I := fun p => p.2 = true →
      p.1.sessionPhase = .connected ∧ p.1.connectedPeer.isSome = true) ?_ ?_ h
  . exact hinv hseen
  . rintro p ⟨-, hinit⟩ hseen
    simp [hinit, mismatchSeen] at hseen
  . rintro ⟨m, seen⟩ move ⟨m', seen'⟩ hreach ih ⟨hstep, hnext⟩ hseen'
    dsimp only at ih hstep hnext hseen' ⊢
    simp only [hnext, mismatchSeen, Bool.and_eq_true, Bool.or_eq_true, decide_eq_true_eq] at hseen'
    obtain ⟨htarget, hseen' | hreported⟩ := hseen'
    . obtain ⟨hsource, hpeer⟩ := ih hseen'
      refine ⟨htarget, ?_⟩
      have htrust := (step_change hstep).trust_stays hsource htarget
      rw [← Option.isSome_map (f := fun peer : PeerSession => peer.trust)] at hpeer ⊢
      rcases htrust with hsame | ⟨-, happrove⟩ | ⟨trust, -, hreview⟩
      . exact hsame ▸ hpeer
      . rw [attempt_connectedPeer] at happrove
        simpa [happrove, markVerified, setTrust] using hpeer
      . rw [attempt_connectedPeer] at hreview
        simpa [hreview] using hpeer
    . refine ⟨htarget, ?_⟩
      split at hreported
      . unfold showsMismatch at hreported
        split at hreported
        . next hpeer => simp [hpeer]
        . simp at hreported
      . simp at hreported

theorem transferGate_of_step {m m' : IpcManager} {move : Move} (h : m.step move = some m')
    (hsource : m.sessionPhase = .connected) (htarget : m'.sessionPhase = .connected)
    (hmove : move ≠ .markVerified) (hgate : m.transferGate = false) : m'.transferGate = false := by
  rw [transferGate_eq, hsource] at hgate
  rw [transferGate_eq, htarget]
  rcases (step_change h).trust_stays hsource htarget with hsame | ⟨happrove, -⟩ | ⟨trust, hreview, htrust⟩
  . rw [attempt_connectedPeer] at hsame
    rw [hsame]
    exact hgate
  . exact absurd happrove hmove
  . rw [attempt_connectedPeer] at htrust
    rw [htrust]
    cases m.connectedPeer with
    | none => rfl
    | some peer => exact isTransferAllowed_of_underReview hreview .connected

theorem transferGate_markVerified {m : IpcManager} (hphase : m.sessionPhase = .connected)
    (hpeer : m.connectedPeer.isSome = true) : m.markVerified.transferGate = true := by
  obtain ⟨peer, hpeer⟩ := Option.isSome_iff_exists.mp hpeer
  simp [transferGate, markVerified, setTrust, hpeer, hphase, isTransferAllowed]

theorem mismatch_blocks_iff {tr : List (Transition (IpcManager × Bool) Move)} {p : IpcManager × Bool}
    (h : (machine.observed mismatchSeen).Run tr p)
    : (∀ t ∈ tr, t.target.2 = true → t.target.1.transferGate = false)
        ↔
      ∀ t ∈ tr, t.source.2 = true → t.action ≠ .markVerified := by
  refine Machine.Run.forall_iff_of_good (fun p => p.2 = true → p.1.transferGate = false) ?_ ?_ ?_ h
  . rintro p ⟨-, hinit⟩ hseen
    simp [hinit, mismatchSeen] at hseen
  . intro _ _ _ _ _ _ hP
    exact hP
  . rintro ⟨m, seen⟩ move ⟨m', seen'⟩ hreach hgood ⟨hstep, hnext⟩
    dsimp only at hgood hstep hnext ⊢
    constructor
    . rintro hblock hseen rfl
      obtain ⟨hphase, hpeer⟩ := connected_of_mismatchSeen hreach hseen
      obtain rfl := Option.some.inj hstep
      have hseen' : seen' = true := by
        simp [hnext, mismatchSeen, hseen, markVerified, setTrust, hphase]
      have hopen := transferGate_markVerified hphase hpeer
      simp [hblock hseen'] at hopen
    . intro hmove hseen'
      simp only [hnext, mismatchSeen, Bool.and_eq_true, Bool.or_eq_true, decide_eq_true_eq] at hseen'
      obtain ⟨htarget, hseen | hreported⟩ := hseen'
      . obtain ⟨hsource, -⟩ := connected_of_mismatchSeen hreach hseen
        exact transferGate_of_step hstep hsource htarget (hmove hseen) (hgood hseen)
      . split at hreported
        . exact transferGate_of_showsMismatch hreported
        . simp at hreported

end IpcManager

end LocalBolt
