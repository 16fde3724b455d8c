import LocalBolt.Session.Lemmas.Connected

/-!
This module contains the lifetime of an approval: a session is shown as verified only after the user
has approved that very session.
-/

namespace LocalBolt

namespace IpcManager

def approval : Observer IpcManager Move Bool where
  start := false
  next approved m move m' :=
    if m.sessionPhase ≠ .connected ∧ m'.sessionPhase = .connected then
      false
    else
      approved || move.isMarkVerified

theorem initialTrust_ne_verified {m : IpcManager} (hm : m.attempt.Valid) (move : Move) :
    m.initialTrust move ≠ some .verified := by
  have hstash : m.stashedTrust ≠ some .verified := by
    unfold stashedTrust
    split
    . next peer hpeer =>
      have := hm.stashed peer hpeer
      simpa using this
    . simp
    . simp
  unfold initialTrust
  split
  . intro h
    rw [Option.or_eq_some_iff] at h
    rcases h with h | ⟨-, h⟩
    . exact hstash h
    . simp at h
  . next sas =>
    intro h
    obtain ⟨trust, htrust, h⟩ := Option.map_eq_some_iff.mp h
    cases sas with
    | none => exact hstash (htrust.trans (congrArg some h))
    | some code => simp at h
  . simp

theorem verified_of_step {m m' : IpcManager} {move : Move} (hm : m.attempt.Valid)
    (h : m.step move = some m') (hverified : m'.connectedPeer.map (·.trust) = some .verified) :
    move = .markVerified
      ∨ (m.sessionPhase = .connected ∧ m.connectedPeer.map (·.trust) = some .verified) := by
  have hchange := step_change h
  have htarget : m'.sessionPhase = .connected := by
    obtain ⟨peer, hpeer, -⟩ := Option.map_eq_some_iff.mp hverified
    exact (hchange.valid hm).connected peer hpeer
  by_cases hsource : m.sessionPhase = .connected
  . rcases hchange.trust_stays hsource htarget with hsame | ⟨happrove, -⟩ | ⟨trust, hreview, htrust⟩
    . exact .inr ⟨hsource, hsame ▸ hverified⟩
    . exact .inl happrove
    . rw [attempt_connectedPeer, hverified] at htrust
      obtain ⟨peer, -, hpeer⟩ := Option.map_eq_some_iff.mp htrust.symm
      simp [hpeer, TrustState.UnderReview] at hreview
  . -- a session starts with the trust of its stash, which is never an approval
    have hstart := hchange.trust_starts hm hsource htarget
    rw [attempt_connectedPeer, hverified] at hstart
    exact absurd hstart.symm (initialTrust_ne_verified hm move)

theorem approved_of_verified {m : IpcManager} {approved : Bool}
    (h : (machine.observed approval).Reachable (m, approved))
    (hverified : m.connectedPeer.map (·.trust) = some .verified) : approved = true := by
  have hinv := Machine.Reachable.invariant
    (I := fun p => p.1.connectedPeer.map (·.trust) = some .verified → p.2 = true) ?_ ?_ h
  . exact hinv hverified
  . rintro p ⟨hinit, -⟩
    simp only [machine, Machine.ofFun] at hinit
    simp [hinit]
  . rintro ⟨m, approved⟩ move ⟨m', approved'⟩ hreach ih ⟨hstep, happroved⟩ hverified
    have hm : m.attempt.Valid := Reachable.valid hreach.of_observed
    dsimp only at ih happroved hverified ⊢
    subst happroved
    rcases verified_of_step hm hstep hverified with hmove | ⟨hsource, hv⟩
    . subst hmove
      obtain rfl := Option.some.inj hstep
      simp [approval, markVerified, setTrust, Move.isMarkVerified]
    . simp [approval, hsource, ih hv]

end IpcManager

end LocalBolt
